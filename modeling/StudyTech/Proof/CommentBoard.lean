import Mathlib.Data.List.Perm.Basic
import Mathlib.Data.List.Sort
import StudyTech.Lib.Below
import StudyTech.Lib.Run
import StudyTech.Lib.Split
import StudyTech.Proof.Comment
import StudyTech.Spec.CommentBoard

/-!
# The comments of the blog

What the page shows of a table of comments, and what becomes of it from request to request. A view has the
comments below its top-level comment (`Thread`), also in a table where a request with the id of a comment
has put that one below itself. Where the page's form is used as it is (`BoardLabel.New`), and the database
checks the parents, a comment stays in the thread it was posted to (`comment_stays`). A listing that meets a
comment whose blog is not there throws, and what it had collected is in the next one; so it is asked that the
blogs are there (`BoardLabel.Loads`).
-/

namespace StudyTech

open Lib

namespace Comment

/-- A comment with replies below a comment is shown once more. -/
def answered (comments : List Comment) : List Comment := comments.filter fun comment => !comment.replyComments.isEmpty

open Classical in
theorem perm_twice {α : Type*} (x : α) (d a w a' : List α) :
    (x :: (x :: (d ++ a) ++ (w ++ a'))).Perm (x :: d ++ w ++ ([x] ++ a ++ a')) := by
  rw [List.perm_iff_count]
  intro y
  simp only [List.count_append, List.count_cons, List.count_nil]
  omega

mutual

theorem emitted_perm : (comment : Comment) →
    comment.emitted.Perm (comment :: (comment.descendants ++ answered comment.descendants))
  | mk id replys => by
    have hreplys := emittedReplys_perm replys
    rw [emitted, descendants]
    exact hreplys.cons _

theorem emittedReplys_perm : (replys : List Comment) →
    (emittedReplys replys).Perm (withDescendants replys ++ answered (withDescendants replys))
  | [] => by
    rw [emittedReplys, withDescendants]
    exact .refl _
  | reply :: replys => by
    have hreply := emitted_perm reply
    have hreplys := emittedReplys_perm replys
    rw [emittedReplys, withDescendants]
    have hsplit : answered (reply :: reply.descendants ++ withDescendants replys) =
        answered [reply] ++ answered reply.descendants ++ answered (withDescendants replys) := by
      unfold answered
      rw [← List.filter_append, ← List.filter_append]
      rfl
    by_cases hnil : reply.replyComments = []
    · have hnone := descendants_of_nil hnil
      have hzero : answered [reply] = [] := by simp [answered, hnil]
      rw [if_pos hnil, hsplit, hnone, hzero]
      exact hreplys.cons _
    · have hone : answered [reply] = [reply] := by simp [answered, hnil]
      rw [if_neg hnil, hsplit, hone]
      -- both sides have the reply twice
      exact ((hreply.append hreplys).cons reply).trans (perm_twice ..)

end

theorem withDescendants_eq (comments : List Comment) :
    withDescendants comments = comments.flatMap fun comment => comment :: comment.descendants := by
  induction comments with
  | nil => rw [withDescendants, List.flatMap_nil]
  | cons comment comments ih => rw [withDescendants, List.flatMap_cons, ih]

/-- The comment with the id is in the view. -/
def Shows (view : Comment) (id : ℤ) : Prop := id ∈ view.id :: view.replyComments.map Comment.id

/-- What is shown once more in the view of a comment. -/
def shownAgain (comment : Comment) : List Comment :=
  comment.replyComments.flatMap fun reply => answered reply.descendants

open Classical in
theorem flatReplys_perm (comment : Comment) :
    comment.flatReplys.Perm (comment.descendants ++ comment.shownAgain) := by
  rw [descendants_eq]
  unfold flatReplys shownAgain
  induction comment.replyComments with
  | nil => rw [withDescendants]; exact .refl _
  | cons reply replys ih =>
    rw [List.flatMap_cons, List.flatMap_cons, withDescendants]
    have hall := (emitted_perm reply).append ih
    rw [List.perm_iff_count] at hall ⊢
    intro y
    have hy := hall y
    simp only [List.count_append, List.count_cons] at hy ⊢
    omega

theorem shownAgain_sublist (comment : Comment) : comment.shownAgain.Sublist comment.descendants := by
  rw [descendants_eq, withDescendants_eq]
  unfold shownAgain
  induction comment.replyComments with
  | nil => exact .slnil
  | cons reply replys ih =>
    rw [List.flatMap_cons, List.flatMap_cons]
    have hreply : (answered reply.descendants).Sublist (reply :: reply.descendants) :=
      List.filter_sublist.trans (List.sublist_cons_self _ _)
    exact hreply.append ih

end Comment

/-- `r` is a reply to `p`. -/
def ReplyTo (rows : List CommentRow) (p r : CommentRow) : Prop :=
  p ∈ rows ∧ r ∈ rows ∧ r.parentCommentId = some p.id

/-- No two rows have one id. -/
def IdsNodup (rows : List CommentRow) : Prop := (rows.map CommentRow.id).Nodup

theorem IdsNodup.eq {rows : List CommentRow} (h : IdsNodup rows) {r r' : CommentRow} (hr : r ∈ rows) (hr' : r' ∈ rows)
    (hid : r.id = r'.id) : r = r' := List.inj_on_of_nodup_map h hr hr' hid

theorem IdsNodup.oneParent {rows : List CommentRow} (h : IdsNodup rows) : OneParent (ReplyTo rows) := by
  rintro p p' r ⟨hp, -, hr⟩ ⟨hp', -, hr'⟩
  exact h.eq hp hp' (Option.some.inj (hr.symm.trans hr'))

theorem root_of_none {rows : List CommentRow} {q : CommentRow} (h : q.parentCommentId = none) :
    Root (ReplyTo rows) q := by
  rintro p ⟨-, -, hq⟩
  rw [h] at hq
  cases hq

/-- The view of a top-level comment has the comments below it, and no other; a comment that is more than
one generation below, and has replies, is there twice. -/
structure Thread (rows : List CommentRow) (q : CommentRow) (view : Comment) : Prop where
  id : view.id = q.id
  shown : ∀ id, id ∈ view.replyComments.map Comment.id ↔ ∃ n r, Below (ReplyTo rows) (n + 1) q r ∧ r.id = id
  once : ∀ n r, Below (ReplyTo rows) (n + 1) q r → n = 0 ∨ (∀ x, ¬ ReplyTo rows r x) →
    (view.replyComments.map Comment.id).count r.id = 1
  twice : ∀ n r, Below (ReplyTo rows) (n + 1) q r → n ≠ 0 → (∃ x, ReplyTo rows r x) →
    (view.replyComments.map Comment.id).count r.id = 2

/-- The blogs of all comments are there. -/
def BlogsThere (blogs : List ℤ) (rows : List CommentRow) : Prop := ∀ r ∈ rows, ∀ blogId ∈ r.blogId, blogId ∈ blogs

instance decidableBlogsThere (blogs : List ℤ) (rows : List CommentRow) : Decidable (BlogsThere blogs rows) :=
  inferInstanceAs (Decidable (∀ r ∈ rows, ∀ blogId ∈ r.blogId, blogId ∈ blogs))

section Listing

variable {order : List CommentRow → List CommentRow} {blogs : List ℤ} {rows found : List CommentRow}

theorem loadComment_id (n : ℕ) (row : CommentRow) : (loadComment order rows n row).id = row.id := by
  cases n <;> rfl

theorem loadComment_replyComments (n : ℕ) (row : CommentRow) : (loadComment order rows (n + 1) row).replyComments =
    (replyRows order rows row).map (loadComment order rows n) := rfl

theorem loadRows_ok (hblogs : BlogsThere blogs rows) (hfound : found ⊆ rows) (service : CommentService) :
    loadRows blogs found service = (.ok found, service) := by
  have hall : (found.all fun r => r.blogId.all fun blogId => blogs.contains blogId) = true := by
    rw [List.all_eq_true]
    intro r hr
    rw [Option.all_eq_true]
    intro blogId hblogId
    exact List.contains_iff_mem.2 (hblogs r (hfound hr) blogId hblogId)
  unfold loadRows
  rw [if_pos hall]
  rfl

variable (horder : ∀ rows, (order rows).Perm rows) (hblogs : BlogsThere blogs rows)

include horder hblogs

theorem loadReplys_ok (n : ℕ) (row : CommentRow) (service : CommentService) :
    loadReplys order blogs rows (n + 1) row service = (.ok (replyRows order rows row), service) :=
  loadRows_ok hblogs (fun _ hr => (List.mem_filter.1 ((horder _).mem_iff.1 hr)).1) service

/-- Where no load throws, the replies are added as those of the comment that is loaded at once. -/
theorem loadRecursively_ok (n : ℕ) (row : CommentRow) (service : CommentService) :
    loadRecursively order blogs rows n row service =
      (.ok (), ⟨(loadComment order rows n row).recursively service.tempReplys⟩) := by
  induction n generalizing row service with
  | zero => rfl
  | succ n ih =>
    have hreply : ∀ (reply : CommentRow) (service : CommentService),
        (do
          addTempReply (loadComment order rows n reply)
          let replys ← loadReplys order blogs rows n reply
          if 0 < replys.length then loadRecursively order blogs rows n reply) service =
        (.ok (), ⟨if 0 < (loadComment order rows n reply).replyComments.length then
          (loadComment order rows n reply).recursively (service.tempReplys ++ [loadComment order rows n reply])
          else service.tempReplys ++ [loadComment order rows n reply]⟩) := by
      intro reply service
      refine (Action.bind_ok rfl).trans ?_
      cases n with
      | zero => rfl
      | succ n =>
        refine (Action.bind_ok (loadReplys_ok horder hblogs n reply _)).trans ?_
        rw [loadComment_replyComments, List.length_map]
        split
        · exact ih reply _
        · rfl
    have hreplys : ∀ (replys : List CommentRow) (service : CommentService),
        (replys.forM fun reply => do
          addTempReply (loadComment order rows n reply)
          let replys ← loadReplys order blogs rows n reply
          if 0 < replys.length then loadRecursively order blogs rows n reply) service =
        (.ok (), ⟨Comment.recursivelyReplys service.tempReplys (replys.map (loadComment order rows n))⟩) := by
      intro replys
      induction replys with
      | nil => exact fun _ => rfl
      | cons reply replys ihr =>
        intro service
        rw [List.map_cons, Comment.recursivelyReplys]
        exact (Action.bind_ok (hreply reply service)).trans (ihr _)
    unfold loadRecursively
    refine (Action.bind_ok rfl).trans ((Action.bind_ok (loadReplys_ok horder hblogs n row _)).trans ?_)
    rw [loadComment, Comment.recursively, List.length_map]
    split
    · exact hreplys _ _
    · rfl

theorem loadChildren_ok (comments : List CommentRow) (hcomments : comments ⊆ rows) (service : CommentService) :
    loadChildren order blogs rows comments service =
      (.ok (combineChildren service.tempReplys (comments.map (loadComment order rows rows.length))).1,
        ⟨(combineChildren service.tempReplys (comments.map (loadComment order rows rows.length))).2⟩) := by
  induction comments generalizing service with
  | nil => rfl
  | cons comment comments ih =>
    obtain ⟨size, hsize⟩ : ∃ size, rows.length = size + 1 :=
      ⟨rows.length - 1, (Nat.succ_pred_eq_of_pos (List.length_pos_of_mem (hcomments List.mem_cons_self))).symm⟩
    rw [hsize] at ih
    have hreplys : ∀ (replys : List CommentRow) (service : CommentService),
        replys.forM (loadRecursively order blogs rows size) service =
          (.ok (), ⟨(replys.map (loadComment order rows size)).foldl Comment.recursively service.tempReplys⟩) := by
      intro replys
      induction replys with
      | nil => exact fun _ => rfl
      | cons reply replys ihr =>
        exact fun service => (Action.bind_ok (loadRecursively_ok horder hblogs size reply service)).trans (ihr _)
    unfold loadChildren
    rw [hsize]
    refine (Action.bind_ok (loadReplys_ok horder hblogs size comment service)).trans ?_
    refine (Action.bind_ok (hreplys _ _)).trans ((Action.bind_ok rfl).trans ?_)
    exact (Action.bind_ok (ih (fun _ h => hcomments (List.mem_cons_of_mem _ h)) {})).trans rfl

/-- Where the blogs of all comments are there, a listing flattens the comments as they are loaded at once. -/
theorem listCommentByBlogId_ok {board : CommentBoard} (hrows : board.rows = rows) (blogId : ℤ) :
    board.listCommentByBlogId order blogs blogId = Prod.map .ok id (board.service.listCommentByBlogId
      ((board.findByBlogIdAndParentCommentNull order blogId).map (loadComment order rows rows.length))) := by
  subst hrows
  have hfound : board.findByBlogIdAndParentCommentNull order blogId ⊆ board.rows := by
    intro r hr
    unfold CommentBoard.findByBlogIdAndParentCommentNull at hr
    exact (List.mem_filter.1 ((horder _).mem_iff.1 ((List.mergeSort_perm ..).mem_iff.1 hr))).1
  have hcopies : ∀ comments : List Comment, (comments.map fun c => Comment.mk c.id c.replyComments) = comments := by
    intro comments
    refine (List.map_congr_left fun c _ => ?_).trans (List.map_id _)
    cases c
    rfl
  refine (Action.bind_ok (loadRows_ok hblogs hfound _)).trans ((loadChildren_ok horder hblogs _ hfound _).trans ?_)
  unfold CommentService.listCommentByBlogId eachComment
  rw [hcopies]
  rfl

end Listing

section Load

variable {order : List CommentRow → List CommentRow} {rows : List CommentRow} {row q r : CommentRow} {n m : ℕ}

theorem Below.mem_rows (hrow : row ∈ rows) (h : Below (ReplyTo rows) n row r) : r ∈ rows :=
  h.mem (fun _ _ hreply => hreply.2.1) hrow

variable (horder : ∀ rows, (order rows).Perm rows)

include horder

theorem mem_replyRows (hrow : row ∈ rows) : r ∈ replyRows order rows row ↔ ReplyTo rows row r := by
  unfold replyRows ReplyTo
  rw [(horder _).mem_iff, List.mem_filter, decide_eq_true_eq, and_iff_right hrow]

/-- The comments below a comment that is loaded are those of the rows below its row. -/
theorem mem_load_descendants (hrow : row ∈ rows) {d : Comment} : d ∈ (loadComment order rows n row).descendants ↔
    ∃ k r, k < n ∧ Below (ReplyTo rows) (k + 1) row r ∧ d = loadComment order rows (n - (k + 1)) r := by
  induction n generalizing row d with
  | zero =>
    have hnone : (loadComment order rows 0 row).descendants = [] := Comment.descendants_of_nil rfl
    rw [hnone]
    constructor
    · intro h
      cases h
    · rintro ⟨k, r, hk, -⟩
      omega
  | succ n ih =>
    rw [Comment.descendants_eq, Comment.withDescendants_eq, loadComment_replyComments, List.flatMap_map,
      List.mem_flatMap]
    constructor
    · rintro ⟨c, hc, hd⟩
      have hreply := (mem_replyRows horder hrow).1 hc
      rcases List.mem_cons.1 hd with rfl | hd
      · exact ⟨0, c, Nat.succ_pos n, .single hreply, rfl⟩
      · obtain ⟨k, r, hk, hbelow, rfl⟩ := (ih hreply.2.1).1 hd
        refine ⟨k + 1, r, Nat.succ_lt_succ hk, .head hreply hbelow, ?_⟩
        rw [Nat.succ_sub_succ]
    · rintro ⟨k, r, hk, hbelow, rfl⟩
      obtain ⟨c, hreply, hbelow⟩ := hbelow.head_inv
      refine ⟨c, (mem_replyRows horder hrow).2 hreply, ?_⟩
      cases k with
      | zero =>
        have heq := hbelow.zero_eq
        subst heq
        exact List.mem_cons_self
      | succ k =>
        refine List.mem_cons_of_mem _ ((ih hreply.2.1).2 ⟨k, r, Nat.lt_of_succ_lt_succ hk, hbelow, ?_⟩)
        rw [Nat.succ_sub_succ]

/-- The ids below a comment that is loaded. -/
theorem mem_load_ids (hrow : row ∈ rows) {id : ℤ} :
    id ∈ (loadComment order rows n row).descendants.map Comment.id ↔
      ∃ k r, k < n ∧ Below (ReplyTo rows) (k + 1) row r ∧ r.id = id := by
  rw [List.mem_map]
  constructor
  · rintro ⟨d, hd, rfl⟩
    obtain ⟨k, r, hk, hbelow, rfl⟩ := (mem_load_descendants horder hrow).1 hd
    exact ⟨k, r, hk, hbelow, (loadComment_id _ r).symm⟩
  · rintro ⟨k, r, hk, hbelow, rfl⟩
    exact ⟨_, (mem_load_descendants horder hrow).2 ⟨k, r, hk, hbelow, rfl⟩, loadComment_id _ r⟩

/-- The ids of a comment that is loaded and of those below it. -/
theorem mem_load_ids_cons (hrow : row ∈ rows) {id : ℤ}
    (h : id ∈ row.id :: (loadComment order rows n row).descendants.map Comment.id) :
    ∃ k r, Below (ReplyTo rows) k row r ∧ r.id = id := by
  rcases List.mem_cons.1 h with rfl | h
  · exact ⟨0, row, .refl row, rfl⟩
  · obtain ⟨k, r, -, hbelow, hid⟩ := (mem_load_ids horder hrow).1 h
    exact ⟨k + 1, r, hbelow, hid⟩

variable (hids : IdsNodup rows)

include hids

/-- **Below a top-level comment there is no id twice.** -/
theorem load_ids_nodup (hq : q ∈ rows) (hroot : Root (ReplyTo rows) q) (hbelow : Below (ReplyTo rows) m q row) :
    ((loadComment order rows n row).descendants.map Comment.id).Nodup := by
  induction n generalizing m row with
  | zero =>
    have hnone : (loadComment order rows 0 row).descendants = [] := Comment.descendants_of_nil rfl
    rw [hnone]
    exact List.nodup_nil
  | succ n ih =>
    have hrow := Below.mem_rows hq hbelow
    have hflat : (loadComment order rows (n + 1) row).descendants.map Comment.id =
        (replyRows order rows row).flatMap fun c =>
          c.id :: (loadComment order rows n c).descendants.map Comment.id := by
      rw [Comment.descendants_eq, Comment.withDescendants_eq, loadComment_replyComments, List.flatMap_map,
        List.map_flatMap]
      simp only [List.map_cons, loadComment_id]
    rw [hflat, List.nodup_flatMap]
    have hdepth : ∀ {c : CommentRow}, c ∈ replyRows order rows row → ReplyTo rows row c ∧ c ∈ rows ∧
        Below (ReplyTo rows) (m + 1) q c := by
      intro c hc
      have hreply := (mem_replyRows horder hrow).1 hc
      exact ⟨hreply, hreply.2.1, hbelow.tail hreply⟩
    refine ⟨fun c hc => List.nodup_cons.2 ⟨fun hmem => ?_, ?_⟩, ?_⟩
    · obtain ⟨-, hin, hc⟩ := hdepth hc
      obtain ⟨k, r, -, hr, hid⟩ := (mem_load_ids horder hin).1 hmem
      have hsame := hids.eq (Below.mem_rows hin hr) hin hid
      subst hsame
      have htwice := (Below.root_depth hids.oneParent hroot hroot hc (hc.trans hr)).1
      omega
    · exact ih (hdepth hc).2.2
    · have hnodup : (replyRows order rows row).Nodup :=
        (horder _).nodup_iff.2 ((List.Nodup.of_map _ hids).filter _)
      refine hnodup.imp_of_mem fun {c c'} hc hc' hne => ?_
      intro id hid hid'
      obtain ⟨-, hin, hc⟩ := hdepth hc
      obtain ⟨-, hin', hc'⟩ := hdepth hc'
      obtain ⟨k, r, hr, rfl⟩ := mem_load_ids_cons horder hin hid
      obtain ⟨k', r', hr', hsame⟩ := mem_load_ids_cons horder hin' hid'
      have hsame := hids.eq (Below.mem_rows hin' hr') (Below.mem_rows hin hr) hsame
      subst hsame
      have hk := (Below.root_depth hids.oneParent hroot hroot (hc.trans hr) (hc'.trans hr')).1
      have hk : k = k' := by omega
      subst hk
      exact hne (Below.start_unique hids.oneParent hr hr')

omit horder in
/-- A top-level comment is not above as many generations as there are rows. -/
theorem below_lt (hq : q ∈ rows) (hroot : Root (ReplyTo rows) q) (hbelow : Below (ReplyTo rows) n q r) :
    n < rows.length :=
  hbelow.lt_length hids.oneParent hroot (fun _ _ hreply => hreply.2.1) hq

/-- What is shown once more: the replies to replies, and those below, that have replies. -/
theorem mem_shownAgain (hq : q ∈ rows) (hroot : Root (ReplyTo rows) q) (hr : Below (ReplyTo rows) (n + 1) q r) :
    r.id ∈ ((loadComment order rows rows.length q).shownAgain.map Comment.id) ↔
      n ≠ 0 ∧ ∃ x, ReplyTo rows r x := by
  obtain ⟨size, hsize⟩ : ∃ size, rows.length = size + 1 :=
    ⟨rows.length - 1, (Nat.succ_pred_eq_of_pos (List.length_pos_of_mem hq)).symm⟩
  have hrin := Below.mem_rows hq hr
  unfold Comment.shownAgain
  rw [hsize, loadComment_replyComments, List.flatMap_map, List.map_flatMap, List.mem_flatMap]
  constructor
  · rintro ⟨c, hc, hmem⟩
    have hreply := (mem_replyRows horder hq).1 hc
    obtain ⟨d, hd, hid⟩ := List.mem_map.1 hmem
    obtain ⟨hd, hanswered⟩ := List.mem_filter.1 hd
    obtain ⟨k, r', hk, hbelow, rfl⟩ := (mem_load_descendants horder hreply.2.1).1 hd
    rw [loadComment_id] at hid
    have hsame := hids.eq (Below.mem_rows hreply.2.1 hbelow) hrin hid
    subst hsame
    have hdepth := (Below.root_depth hids.oneParent hroot hroot hr (.head hreply hbelow)).1
    refine ⟨by omega, ?_⟩
    cases hj : size - (k + 1) with
    | zero => rw [hj] at hanswered; cases hanswered
    | succ j =>
      rw [hj, loadComment_replyComments] at hanswered
      cases hrows : replyRows order rows r' with
      | nil => rw [hrows] at hanswered; cases hanswered
      | cons x xs => exact ⟨x, (mem_replyRows horder hrin).1 (by rw [hrows]; exact List.mem_cons_self)⟩
  · rintro ⟨hn, x, hx⟩
    obtain ⟨k, rfl⟩ := Nat.exists_eq_succ_of_ne_zero hn
    obtain ⟨c, hreply, hbelow⟩ := hr.head_inv
    have hdeep := below_lt hids hq hroot (hr.tail hx)
    refine ⟨c, (mem_replyRows horder hq).2 hreply, List.mem_map.2 ⟨loadComment order rows (size - (k + 1)) r, ?_,
      loadComment_id _ r⟩⟩
    refine List.mem_filter.2 ⟨(mem_load_descendants horder hreply.2.1).2 ⟨k, r, by omega, hbelow, rfl⟩, ?_⟩
    obtain ⟨j, hj⟩ : ∃ j, size - (k + 1) = j + 1 := ⟨size - (k + 1) - 1, by omega⟩
    have hx := (mem_replyRows horder hrin).2 hx
    rw [hj, loadComment_replyComments]
    cases hrows : replyRows order rows r with
    | nil => rw [hrows] at hx; cases hx
    | cons y ys => rfl

/-- **One thread.** -/
theorem thread_flatView (hq : q ∈ rows) (hroot : Root (ReplyTo rows) q) :
    Thread rows q (loadComment order rows rows.length q).flatView := by
  have hperm := (Comment.flatReplys_perm (loadComment order rows rows.length q)).map Comment.id
  have hnodup := load_ids_nodup (n := rows.length) horder hids hq hroot (.refl q)
  have hbelow : ∀ n r, Below (ReplyTo rows) (n + 1) q r →
      r.id ∈ (loadComment order rows rows.length q).descendants.map Comment.id := by
    intro n r hr
    have hlt := below_lt hids hq hroot hr
    exact (mem_load_ids horder hq).2 ⟨n, r, by omega, hr, rfl⟩
  have hcount : ∀ n r, Below (ReplyTo rows) (n + 1) q r →
      ((loadComment order rows rows.length q).flatView.replyComments.map Comment.id).count r.id =
        1 + ((loadComment order rows rows.length q).shownAgain.map Comment.id).count r.id := by
    intro n r hr
    have hone := List.count_eq_one_of_mem hnodup (hbelow n r hr)
    show ((loadComment order rows rows.length q).flatReplys.map Comment.id).count r.id = _
    rw [hperm.count_eq, List.map_append, List.count_append, hone]
  refine ⟨loadComment_id _ q, fun id => ?_, fun n r hr hcase => ?_, fun n r hr hn hx => ?_⟩
  · show id ∈ (loadComment order rows rows.length q).flatReplys.map Comment.id ↔ _
    constructor
    · intro hid
      obtain ⟨d, hd, rfl⟩ := List.mem_map.1 hid
      obtain ⟨k, r, -, hr, hid⟩ := (mem_load_ids horder hq).1 (List.mem_map.2 ⟨d, Comment.mem_flatReplys.1 hd, rfl⟩)
      exact ⟨k, r, hr, hid⟩
    · rintro ⟨n, r, hr, rfl⟩
      obtain ⟨d, hd, hid⟩ := List.mem_map.1 (hbelow n r hr)
      exact List.mem_map.2 ⟨d, Comment.mem_flatReplys.2 hd, hid⟩
  · have hnot : r.id ∉ (loadComment order rows rows.length q).shownAgain.map Comment.id := by
      intro hmem
      obtain ⟨hn, x, hx⟩ := (mem_shownAgain horder hids hq hroot hr).1 hmem
      rcases hcase with hzero | hnone
      · exact hn hzero
      · exact hnone x hx
    rw [hcount n r hr, List.count_eq_zero.2 hnot]
  · have hmem := (mem_shownAgain horder hids hq hroot hr).2 ⟨hn, hx⟩
    have hagain : ((loadComment order rows rows.length q).shownAgain.map Comment.id).Nodup :=
      hnodup.sublist ((Comment.shownAgain_sublist _).map Comment.id)
    rw [hcount n r hr, List.count_eq_one_of_mem hagain hmem]

end Load

/-- A view shows a comment of the thread of its top-level comment, and no other. -/
theorem Thread.shows_iff {rows : List CommentRow} {q q' r : CommentRow} {view : Comment} {n : ℕ}
    (h : Thread rows q' view) (hids : IdsNodup rows) (hr : r ∈ rows) (hq' : q' ∈ rows)
    (hnone' : q'.parentCommentId = none) (hnone : q.parentCommentId = none) (hbelow : Below (ReplyTo rows) n q r) :
    view.Shows r.id ↔ q' = q := by
  have hunique : ∀ {m : ℕ} {r' : CommentRow}, Below (ReplyTo rows) m q' r' → r'.id = r.id → q' = q := by
    intro m r' hr' hid
    obtain rfl := hids.eq (Below.mem_rows hq' hr') hr hid
    exact (Below.root_depth hids.oneParent (root_of_none hnone') (root_of_none hnone) hr' hbelow).2
  unfold Comment.Shows
  rw [List.mem_cons]
  constructor
  · rintro (hid | hid)
    · exact hunique (.refl q') (hid.trans h.id).symm
    · obtain ⟨m, r', hr', hid⟩ := (h.shown r.id).1 hid
      exact hunique hr' hid
  · rintro rfl
    cases n with
    | zero =>
      have heq := hbelow.zero_eq
      subst heq
      exact .inl h.id.symm
    | succ n => exact .inr ((h.shown r.id).2 ⟨n, r, hbelow, rfl⟩)

section Runs

variable {accepts : List CommentRow → CommentRow → Bool} {order : List CommentRow → List CommentRow} {avatar : String}
  {board board' : CommentBoard} {l : BoardLabel}

/-- What a request does to the rows: a new one comes after the others, or the one whose id was sent is
replaced. -/
inductive PostEffect (accepts : List CommentRow → CommentRow → Bool) (board : CommentBoard) (comment : CommentForm)
    (seq : ℤ) : CommentBoard → Prop
  | inserted {row : CommentRow} (hrow : row.id = seq) (hblog : row.blogId ≠ none)
    (haccepts : accepts board.rows row = true) :
    PostEffect accepts board comment seq { board with rows := board.rows ++ [row], nextId := seq + 1 }
  | merged {old row : CommentRow} (hid : comment.id = some old.id) (hold : old ∈ board.rows) (hrow : row.id = old.id)
    (hblog : row.blogId ≠ none) : PostEffect accepts board comment seq
      { board with rows := board.rows.map fun r => if r.id = old.id then row else r }

theorem save_effect {id : Option ℤ} {row : ℤ → CommentRow} {seq : ℤ} {comment : CommentForm}
    (hid : id = comment.id) (hrow : ∀ id, (row id).id = id) (hblog : ∀ id, (row id).blogId ≠ none)
    (h : board.save accepts id row seq = .ok board') : PostEffect accepts board comment seq board' := by
  unfold CommentBoard.save at h
  split at h
  · rename_i old hfind
    obtain ⟨id', hsome, hold⟩ := Option.bind_eq_some_iff.1 hfind
    have hsame : old.id = id' := by simpa using List.find?_some hold
    split at h
    · cases h
      exact .merged (by rw [← hid, hsome, hsame]) (List.mem_of_find?_eq_some hold) (hrow _) (hblog _)
    · cases h
  · split at h
    · next haccepts =>
      cases h
      exact .inserted (hrow seq) (hblog seq) haccepts
    · cases h

theorem post_effect {comment : CommentForm} {user : Option (Option String)} {now seq : ℤ}
    (h : board.post accepts avatar comment user now seq = .ok board') :
    PostEffect accepts board comment seq board' := by
  have hsave : ∀ bean : CommentForm, bean.id = comment.id → bean.blog.join ≠ none →
      board.saveComment accepts bean now seq = .ok board' → PostEffect accepts board comment seq board' := by
    intro bean hid hblog h
    unfold CommentBoard.saveComment at h
    split at h
    · cases h
    · cases h
    · exact save_effect hid (fun _ => rfl) (fun _ => hblog) h
  unfold CommentBoard.post at h
  split at h
  · cases h
  · cases h
  · next blogId hblogId =>
    have hblog : comment.blog.join ≠ none := by
      rw [hblogId]
      exact Option.some_ne_none blogId
    cases user with
    | some userAvatar => exact hsave { comment with avatar := userAvatar, adminComment := true } rfl hblog h
    | none => exact hsave { comment with avatar := some avatar } rfl hblog h

/-- The invariant of every run: ids are taken once, comments are about a blog, and `tempReplys` is empty between
the requests. -/
structure BoardInv (board : CommentBoard) : Prop where
  ids : IdsNodup board.rows
  blogs : ∀ r ∈ board.rows, r.blogId ≠ none
  taken : ∀ r ∈ board.rows, r.id < board.nextId
  service : board.service = {}

theorem boardInv_init : BoardInv .init :=
  ⟨List.nodup_nil, fun _ hr => absurd hr List.not_mem_nil, fun _ hr => absurd hr List.not_mem_nil, rfl⟩

/-- A merge keeps the ids. -/
theorem map_merged_ids {rows : List CommentRow} {old row : CommentRow} (hrow : row.id = old.id) :
    (rows.map fun r => if r.id = old.id then row else r).map CommentRow.id = rows.map CommentRow.id := by
  rw [List.map_map]
  refine List.map_congr_left fun r _ => ?_
  show (if r.id = old.id then row else r).id = r.id
  split
  · next hsame => rw [hrow, hsame]
  · rfl

/-- The listing of a blog: the views of its top-level comments, from the oldest on. -/
theorem BoardInv.listing (h : BoardInv board) (horder : ∀ rows, (order rows).Perm rows) {blogs : List ℤ}
    (hblogs : BlogsThere blogs board.rows) (blogId : ℤ) : board.listCommentByBlogId order blogs blogId =
      (.ok ((board.findByBlogIdAndParentCommentNull order blogId).map fun q =>
        (loadComment order board.rows board.rows.length q).flatView), {}) := by
  rw [listCommentByBlogId_ok horder hblogs rfl]
  unfold CommentService.listCommentByBlogId
  rw [h.service, Comment.eachComment_eq, List.map_map]
  rfl

/-- Whenever comments are listed, the blogs of all comments are there. -/
def BoardLabel.Loads (board : CommentBoard) : BoardLabel → Prop
  | .post _ _ _ _ => True
  | .list _ blogs => BlogsThere blogs board.rows

instance decidableLoads (board : CommentBoard) : ∀ l : BoardLabel, Decidable (l.Loads board)
  | .post _ _ _ _ => isTrue trivial
  | .list _ blogs => inferInstanceAs (Decidable (BlogsThere blogs board.rows))

theorem boardInv_step (horder : ∀ rows, (order rows).Perm rows) (h : BoardInv board) (hloads : l.Loads board)
    (hs : boardStep accepts order avatar board l = some board') :
    BoardInv board' := by
  cases l with
  | post comment user now seq =>
    simp only [boardStep] at hs
    split at hs
    · next hseq =>
      split at hs
      · next board'' hpost =>
        cases hs
        cases post_effect hpost with
        | @inserted row hrow hblog _ =>
          refine ⟨?_, fun r hr => ?_, fun r hr => ?_, h.service⟩
          · unfold IdsNodup
            rw [List.map_append, List.nodup_append]
            refine ⟨h.ids, List.pairwise_singleton _ _, ?_⟩
            intro id hid id' hid'
            obtain ⟨r, hr, rfl⟩ := List.mem_map.1 hid
            rw [List.map_singleton, List.mem_singleton] at hid'
            have hlt := h.taken r hr
            omega
          · rcases List.mem_append.1 hr with hr | hr
            · exact h.blogs r hr
            · rwa [List.mem_singleton.1 hr]
          · rcases List.mem_append.1 hr with hr | hr
            · have hlt := h.taken r hr
              show r.id < seq + 1
              omega
            · rw [List.mem_singleton.1 hr, hrow]
              exact Int.lt_succ seq
        | @merged old row _ hold hrow hblog =>
          have hsame : (board.rows.map fun r => if r.id = old.id then row else r).map CommentRow.id =
              board.rows.map CommentRow.id := map_merged_ids hrow
          refine ⟨?_, fun r hr => ?_, fun r hr => ?_, h.service⟩
          · unfold IdsNodup
            rw [hsame]
            exact h.ids
          · obtain ⟨r', hr', rfl⟩ := List.mem_map.1 hr
            split
            · exact hblog
            · exact h.blogs r' hr'
          · have hid : r.id ∈ board.rows.map CommentRow.id := by
              rw [← hsame]
              exact List.mem_map.2 ⟨r, hr, rfl⟩
            obtain ⟨r', hr', hid⟩ := List.mem_map.1 hid
            rw [← hid]
            exact h.taken r' hr'
      · cases hs
        exact h
    · cases hs
  | list blogId blogs =>
    cases hs
    refine ⟨h.ids, h.blogs, h.taken, ?_⟩
    show (board.listCommentByBlogId order blogs blogId).2 = {}
    rw [h.listing horder hloads blogId]

/-- The threads of a blog. -/
theorem BoardInv.threads (h : BoardInv board) (horder : ∀ rows, (order rows).Perm rows) {blogs : List ℤ}
    (hblogs : BlogsThere blogs board.rows) (blogId : ℤ) : ∃ roots views,
    roots.Perm (board.rows.filter fun r => r.blogId = some blogId ∧ r.parentCommentId = none) ∧
    roots.Pairwise (fun q q' => q.createTime ≤ q'.createTime) ∧
    board.listCommentByBlogId order blogs blogId = (.ok views, {}) ∧
      List.Forall₂ (Thread board.rows) roots views := by
  refine ⟨board.findByBlogIdAndParentCommentNull order blogId, _, ?_, ?_, h.listing horder hblogs blogId, ?_⟩
  · unfold CommentBoard.findByBlogIdAndParentCommentNull
    exact (List.mergeSort_perm ..).trans (horder _)
  · unfold CommentBoard.findByBlogIdAndParentCommentNull
    have hsorted := @List.pairwise_mergeSort _ (fun a b : CommentRow => decide (a.createTime ≤ b.createTime))
      (by intro a b c hab hbc; exact decide_eq_true ((of_decide_eq_true hab).trans (of_decide_eq_true hbc)))
      (by intro a b; simpa using le_total a.createTime b.createTime)
      (order (board.rows.filter fun r => r.blogId = some blogId ∧ r.parentCommentId = none))
    exact hsorted.imp of_decide_eq_true
  · rw [List.forall₂_map_right_iff, List.forall₂_same]
    intro q hq
    unfold CommentBoard.findByBlogIdAndParentCommentNull at hq
    have hmem := (horder _).mem_iff.1 ((List.mergeSort_perm ..).mem_iff.1 hq)
    obtain ⟨hin, hcond⟩ := List.mem_filter.1 hmem
    have hnone := (of_decide_eq_true hcond).2
    exact thread_flatView horder h.ids hin (root_of_none hnone)

/-- **What a blog shows.** After any requests, whatever ids they send and whatever the database accepts, as long
as the blogs of the comments are there when comments are listed: one view for each top-level comment of the blog,
from the oldest on. A view has the comments below, and no other, also where some comments are below themselves:
twice where a comment is a reply to a reply, or below one, and has replies, and else once. -/
theorem blog_threads (horder : ∀ rows, (order rows).Perm rows) {ls : List BoardLabel}
    (hloads : Along (boardStep accepts order avatar) (fun board l => l.Loads board) .init ls)
    (hrun : exec (boardStep accepts order avatar) .init ls = some board) {blogs : List ℤ}
    (hblogs : BlogsThere blogs board.rows) (blogId : ℤ) : ∃ roots views,
    roots.Perm (board.rows.filter fun r => r.blogId = some blogId ∧ r.parentCommentId = none) ∧
    roots.Pairwise (fun q q' => q.createTime ≤ q'.createTime) ∧
    board.listCommentByBlogId order blogs blogId = (.ok views, {}) ∧
      List.Forall₂ (Thread board.rows) roots views := by
  have h : BoardInv board := inv_of_along (fun _ _ _ h => boardInv_step horder h) boardInv_init hloads hrun
  exact h.threads horder hblogs blogId

/-- The reply of the first blog is shown under the second one: the listing before has left it behind. -/
example :
    let board : CommentBoard := ⟨[⟨1, none, none, none, none, 0, some 1, none, false⟩,
      ⟨2, none, none, none, none, 1, some 1, some 1, false⟩, ⟨3, none, none, none, none, 2, some 9, some 2, false⟩,
      ⟨4, none, none, none, none, 3, some 2, none, false⟩], 5, {}⟩
    ((boardStep (fun _ _ => true) id "avatar" board (.list 1 [1, 2])).map fun board =>
      (board.listCommentByBlogId id [1, 2] 2).1.toOption.map fun views =>
        views.map fun view => (view.id, view.replyComments.map Comment.id)) = some (some [(4, [2])]) := by
  decide +kernel

/-- The form of the page sends no id. -/
def BoardLabel.New : BoardLabel → Prop
  | .post comment _ _ _ => comment.id = none
  | .list _ _ => True

/-- Every comment is below a top-level one. -/
def Rooted (rows : List CommentRow) : Prop :=
  ∀ r ∈ rows, ∃ q n, q ∈ rows ∧ q.parentCommentId = none ∧ Below (ReplyTo rows) n q r

theorem replyTo_mono {rows rows' : List CommentRow} (h : rows <+: rows') (p r : CommentRow)
    (hreply : ReplyTo rows p r) : ReplyTo rows' p r := ⟨h.subset hreply.1, h.subset hreply.2.1, hreply.2.2⟩

/-- A request without an id adds a comment, or none. -/
theorem new_step (hparent : ∀ rows row p, accepts rows row = true → row.parentCommentId = some p → ∃ r ∈ rows, r.id = p)
    (hnew : l.New) (hs : boardStep accepts order avatar board l = some board') :
    board.rows <+: board'.rows ∧ (Rooted board.rows → Rooted board'.rows) := by
  cases l with
  | post comment user now seq =>
    simp only [boardStep] at hs
    split at hs
    · split at hs
      · next board'' hpost =>
        cases hs
        cases post_effect hpost with
        | @inserted row hrow _ haccepts =>
          have hpre : board.rows <+: board.rows ++ [row] := List.prefix_append ..
          refine ⟨hpre, fun hrooted r hr => ?_⟩
          rcases List.mem_append.1 hr with hr | hr
          · obtain ⟨q, n, hq, hnone, hbelow⟩ := hrooted r hr
            exact ⟨q, n, hpre.subset hq, hnone, hbelow.mono (replyTo_mono hpre)⟩
          · rw [List.mem_singleton.1 hr]
            have hin : row ∈ board.rows ++ [row] := List.mem_append_right _ List.mem_cons_self
            cases hp : row.parentCommentId with
            | none => exact ⟨row, 0, hin, hp, .refl row⟩
            | some p =>
              -- the parent is an earlier comment
              obtain ⟨r', hr', hid⟩ := hparent _ row p haccepts hp
              obtain ⟨q, n, hq, hnone, hbelow⟩ := hrooted r' hr'
              have hreply : ReplyTo (board.rows ++ [row]) r' row := ⟨hpre.subset hr', hin, by rw [hp, hid]⟩
              exact ⟨q, n + 1, hpre.subset hq, hnone, (hbelow.mono (replyTo_mono hpre)).tail hreply⟩
        | merged hid _ _ _ =>
          have hnone : comment.id = none := hnew
          rw [hnone] at hid
          cases hid
      · cases hs
        exact ⟨List.prefix_refl _, id⟩
    · cases hs
  | list blogId blogs =>
    cases hs
    exact ⟨List.prefix_refl _, id⟩

/-- After more requests without an id the earlier comments are there, and all are below a top-level one. -/
theorem new_exec (horder : ∀ rows, (order rows).Perm rows)
    (hparent : ∀ rows row p, accepts rows row = true → row.parentCommentId = some p → ∃ r ∈ rows, r.id = p)
    {ls : List BoardLabel} (hnew : ∀ l ∈ ls, l.New)
    (hloads : Along (boardStep accepts order avatar) (fun board l => l.Loads board) board ls)
    (h : BoardInv board) (hrooted : Rooted board.rows)
    (hrun : exec (boardStep accepts order avatar) board ls = some board') :
    board.rows <+: board'.rows ∧ BoardInv board' ∧ Rooted board'.rows := by
  have hok := hloads.and (along_of_forall_mem hnew)
  refine inv_of_along (I := fun b => board.rows <+: b.rows ∧ BoardInv b ∧ Rooted b.rows) ?_
    ⟨List.prefix_refl _, h, hrooted⟩ hok hrun
  rintro b l b' ⟨hpre, h, hrooted⟩ ⟨hload, hl⟩ hs
  obtain ⟨hstep, hkept⟩ := new_step hparent hl hs
  exact ⟨hpre.trans hstep, boardInv_step horder h hload hs, hkept hrooted⟩

/-- **A comment stays in its thread.** Where the database checks the parents, no request sends an id, and the blogs
of the comments are there when comments are listed: a comment stays as it is, and from then on it is shown in one
view of all blogs, that of the top-level comment it is below. -/
theorem comment_stays (horder : ∀ rows, (order rows).Perm rows)
    (hparent : ∀ rows row p, accepts rows row = true → row.parentCommentId = some p → ∃ r ∈ rows, r.id = p)
    {ls ls' : List BoardLabel} (hnew : ∀ l ∈ ls ++ ls', l.New)
    (hloads : Along (boardStep accepts order avatar) (fun board l => l.Loads board) .init (ls ++ ls'))
    (hrun : exec (boardStep accepts order avatar) .init ls = some board)
    (hrun' : exec (boardStep accepts order avatar) board ls' = some board') {blogs : List ℤ}
    (hblogs : BlogsThere blogs board'.rows) :
    board.rows <+: board'.rows ∧ ∀ r ∈ board.rows, ∃ q ∈ board.rows, q.parentCommentId = none ∧
      (∃ n, Below (ReplyTo board.rows) n q r) ∧ ∃ blogId, q.blogId = some blogId ∧
      (∃ pre view post, board'.listCommentByBlogId order blogs blogId = (.ok (pre ++ view :: post), {}) ∧
        view.id = q.id ∧ view.Shows r.id ∧ ∀ other ∈ pre ++ post, ¬ other.Shows r.id) ∧
      ∀ blogId', blogId' ≠ blogId → ∃ views, board'.listCommentByBlogId order blogs blogId' = (.ok views, {}) ∧
        ∀ view ∈ views, ¬ view.Shows r.id := by
  obtain ⟨hloadsBefore, hloadsAfter⟩ := along_append.1 hloads
  obtain ⟨-, h, hrooted⟩ := new_exec horder hparent (fun l hl => hnew l (List.mem_append_left _ hl)) hloadsBefore
    boardInv_init (fun r hr => absurd hr List.not_mem_nil) hrun
  obtain ⟨hpre, h', -⟩ := new_exec horder hparent (fun l hl => hnew l (List.mem_append_right _ hl))
    (hloadsAfter _ hrun) h hrooted hrun'
  refine ⟨hpre, fun r hr => ?_⟩
  obtain ⟨q, n, hq, hnone, hbelow⟩ := hrooted r hr
  obtain ⟨home, hhome⟩ := Option.ne_none_iff_exists'.1 (h.blogs q hq)
  have hbelow' := hbelow.mono (replyTo_mono hpre)
  -- a view shows the comment if it is that of `q`
  have hshows : ∀ {q' : CommentRow} {view : Comment}, q' ∈ board'.rows → q'.parentCommentId = none →
      Thread board'.rows q' view → (view.Shows r.id ↔ q' = q) := fun hq' hnone' hthread =>
    hthread.shows_iff h'.ids (hpre.subset hr) hq' hnone' hnone hbelow'
  have hroot : ∀ {blogId : ℤ} {roots : List CommentRow},
      roots.Perm (board'.rows.filter fun r => r.blogId = some blogId ∧ r.parentCommentId = none) →
        ∀ q' ∈ roots, q' ∈ board'.rows ∧ q'.blogId = some blogId ∧ q'.parentCommentId = none := by
    intro blogId roots hperm q' hq'
    obtain ⟨hin, hcond⟩ := List.mem_filter.1 (hperm.mem_iff.1 hq')
    exact ⟨hin, of_decide_eq_true hcond⟩
  refine ⟨q, hq, hnone, ⟨n, hbelow⟩, home, hhome, ?_, fun blogId hne => ?_⟩
  · obtain ⟨roots, views, hperm, -, hlist, hthreads⟩ := h'.threads horder hblogs home
    have hnodup : roots.Nodup := hperm.nodup_iff.2 ((List.Nodup.of_map _ h'.ids).filter _)
    have hmem : q ∈ roots :=
      hperm.mem_iff.2 (List.mem_filter.2 ⟨hpre.subset hq, decide_eq_true ⟨hhome, hnone⟩⟩)
    obtain ⟨pre, view, post, rfl, hthread, hothers⟩ := forall₂_split hthreads hmem hnodup
    refine ⟨pre, view, post, hlist, hthread.id, (hshows (hpre.subset hq) hnone hthread).2 rfl, fun other hother => ?_⟩
    obtain ⟨q', hq', hne, hthread'⟩ := hothers other hother
    obtain ⟨hin, -, hnone'⟩ := hroot hperm q' hq'
    exact fun hshown => hne ((hshows hin hnone' hthread').1 hshown)
  · obtain ⟨roots, views, hperm, -, hlist, hthreads⟩ := h'.threads horder hblogs blogId
    refine ⟨views, hlist, fun view hview hshown => ?_⟩
    obtain ⟨q', hq', hthread⟩ := exists_of_mem_right hthreads hview
    obtain ⟨hin, hblog, hnone'⟩ := hroot hperm q' hq'
    rw [(hshows hin hnone' hthread).1 hshown, hhome] at hblog
    exact hne (Option.some.inj hblog).symm

end Runs

/-- The database of the runs below checks parents, and gives rows as they are in the table. -/
def checksParent (rows : List CommentRow) (row : CommentRow) : Bool :=
  row.parentCommentId.all fun p => rows.any fun r => r.id = p

/-- A reply on the page of the first blog. -/
def reply (parent now seq : ℤ) : BoardLabel :=
  .post { blog := some (some 1), parentComment := some (some parent) } none now seq

/-- Four comments, each a reply to the one before, of which two are listed before the others come, and a fifth that
is merged into its own parent. -/
def deepBoard : List BoardLabel :=
  [reply (-1) 10 1, reply 1 11 2, .list 1 [1], reply 2 12 3, reply 3 13 4, reply (-1) 14 5, reply 5 15 6,
    .post { id := some 5, blog := some (some 1), parentComment := some (some 6) } none 16 7]

theorem as_in_table (rows : List CommentRow) : (id rows).Perm rows := .refl rows

/-- The third comment is shown twice, and the two that are below each other not at all. -/
theorem blog_threads_deep : ∃ board roots views,
    exec (boardStep checksParent id "avatar") .init deepBoard = some board ∧
    board.listCommentByBlogId id [1] 1 = (.ok views, {}) ∧ List.Forall₂ (Thread board.rows) roots views ∧
    views.map (fun view => view.replyComments.map Comment.id) = [[2, 3, 3, 4]] := by
  have heval : (exec (boardStep checksParent id "avatar") .init deepBoard).any (fun board =>
      decide (BlogsThere [1] board.rows) && ((board.listCommentByBlogId id [1] 1).1.map (fun views =>
        views.map fun view => view.replyComments.map Comment.id)).toOption == some [[2, 3, 3, 4]]) = true := by
    decide +kernel
  have hloads : Along (boardStep checksParent id "avatar") (fun board l => l.Loads board) .init deepBoard := by
    decide +kernel
  obtain ⟨board, hrun, hboard⟩ := (Option.any_eq_true _ _).1 heval
  rw [Bool.and_eq_true, decide_eq_true_eq, beq_iff_eq] at hboard
  obtain ⟨hblogs, hviews⟩ := hboard
  obtain ⟨roots, views, -, -, hlist, hthreads⟩ := blog_threads as_in_table hloads hrun hblogs 1
  rw [hlist] at hviews
  exact ⟨board, roots, views, hrun, hlist, hthreads, Option.some.inj hviews⟩

/-- The reply to the first comment is in the view of that, also when other replies and comments have come. -/
theorem comment_stays_deep : ∃ board board' pre view post,
    exec (boardStep checksParent id "avatar") .init (deepBoard.take 2) = some board ∧
    exec (boardStep checksParent id "avatar") board ((deepBoard.drop 2).take 4) = some board' ∧
    board'.listCommentByBlogId id [1] 1 = (.ok (pre ++ view :: post), {}) ∧ view.id = 1 ∧ view.Shows 2 ∧
    ∀ other ∈ pre ++ post, ¬ other.Shows 2 := by
  have heval : (exec (boardStep checksParent id "avatar") .init (deepBoard.take 2)).any (fun board =>
      (board.rows.any fun r => r.id == 2) &&
      (board.rows.all fun q => q.parentCommentId.isSome || (q.id == 1 && q.blogId == some 1)) &&
      (exec (boardStep checksParent id "avatar") board ((deepBoard.drop 2).take 4)).any fun board' =>
        decide (BlogsThere [1] board'.rows)) = true := by decide +kernel
  have hloads : Along (boardStep checksParent id "avatar") (fun board l => l.Loads board) .init
      (deepBoard.take 2 ++ (deepBoard.drop 2).take 4) := by decide +kernel
  obtain ⟨board, hrun, hboard⟩ := (Option.any_eq_true _ _).1 heval
  rw [Bool.and_eq_true, Bool.and_eq_true] at hboard
  obtain ⟨⟨hreply, hroots⟩, hrest⟩ := hboard
  obtain ⟨board', hrun', hblogs⟩ := (Option.any_eq_true _ _).1 hrest
  have hparent : ∀ rows row p, checksParent rows row = true → row.parentCommentId = some p → ∃ r ∈ rows, r.id = p := by
    intro rows row p h hp
    unfold checksParent at h
    rw [hp] at h
    simpa using h
  have hnew : ∀ l ∈ deepBoard.take 2 ++ (deepBoard.drop 2).take 4, l.New := by
    intro l hl
    simp only [deepBoard, reply] at hl
    simp at hl
    rcases hl with rfl | rfl | rfl | rfl | rfl | rfl <;> trivial
  obtain ⟨r, hr, hid⟩ := List.any_eq_true.1 hreply
  have hid : r.id = 2 := beq_iff_eq.1 hid
  obtain ⟨-, hstays⟩ := comment_stays as_in_table hparent hnew hloads hrun hrun' (of_decide_eq_true hblogs)
  obtain ⟨q, hq, hnone, -, home, hhome, ⟨pre, view, post, hlist, hview, hshown, hothers⟩, -⟩ := hstays r hr
  -- there is one top-level comment
  have hone := List.all_eq_true.1 hroots q hq
  rw [hnone] at hone
  obtain ⟨hqid, hqblog⟩ : q.id = 1 ∧ q.blogId = some 1 := by simpa using hone
  obtain rfl : home = 1 := Option.some.inj (hhome.symm.trans hqblog)
  rw [hid] at hshown hothers
  exact ⟨board, board', pre, view, post, hrun, hrun', hlist, hview.trans hqid, hshown, hothers⟩

end StudyTech
