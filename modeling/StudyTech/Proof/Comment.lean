import Mathlib.Algebra.BigOperators.Group.List.Basic
import Mathlib.Algebra.Order.Ring.Nat
import Mathlib.Data.List.Nodup
import Mathlib.Data.List.Perm.Basic
import StudyTech.Spec.Comment

/-!
# The threads of comments

A comment comes before its replies, and these before theirs (`descendants`). `recursively` adds a
comment with all below it, but one that has replies itself both in its parent's loop and in its own
call (`recursively_eq`): the views are right just where the replies of replies have none
(`comments_flattened`). Nothing is lost in any case (`mem_flatReplys`).
-/

namespace StudyTech

namespace Comment

mutual

/-- The comments below a comment, each before its replies. -/
def descendants : Comment → List Comment
  | mk _ replys => withDescendants replys

/-- The comments of a list, each with those below it. -/
def withDescendants : List Comment → List Comment
  | [] => []
  | comment :: comments => comment :: descendants comment ++ withDescendants comments

end

mutual

/-- What `recursively` adds for a comment. -/
def emitted : Comment → List Comment
  | mk id replys => mk id replys :: emittedReplys replys

/-- What the loop of `recursively` adds. -/
def emittedReplys : List Comment → List Comment
  | [] => []
  | reply :: replys => reply :: (if reply.replyComments = [] then [] else emitted reply) ++ emittedReplys replys

end

theorem descendants_eq (comment : Comment) : comment.descendants = withDescendants comment.replyComments := by
  cases comment
  rw [descendants]
  rfl

theorem descendants_of_nil {comment : Comment} (h : comment.replyComments = []) : comment.descendants = [] := by
  rw [descendants_eq, h, withDescendants]

theorem emitted_eq (comment : Comment) : comment.emitted = comment :: emittedReplys comment.replyComments := by
  cases comment
  rw [emitted]
  rfl

mutual

theorem recursively_eq (tempReplys : List Comment) : (comment : Comment) →
    comment.recursively tempReplys = tempReplys ++ comment.emitted
  | mk id replys => by
    have hreplys := recursivelyReplys_eq (tempReplys ++ [mk id replys]) replys
    rw [recursively, emitted]
    simp only [hreplys]
    split
    · simp
    · rename_i hlength
      have hnil : replys = [] := List.length_eq_zero_iff.1 (Nat.eq_zero_of_not_pos hlength)
      subst hnil
      simp [emittedReplys]

theorem recursivelyReplys_eq (tempReplys : List Comment) : (replys : List Comment) →
    recursivelyReplys tempReplys replys = tempReplys ++ emittedReplys replys
  | [] => by
    rw [recursivelyReplys, emittedReplys, List.append_nil]
  | reply :: replys => by
    have hreply := recursively_eq (tempReplys ++ [reply]) reply
    rw [recursivelyReplys, emittedReplys]
    by_cases hnil : reply.replyComments = []
    · have hreplys := recursivelyReplys_eq (tempReplys ++ [reply]) replys
      simp [hnil, hreplys]
    · have hreplys := recursivelyReplys_eq (tempReplys ++ [reply] ++ reply.emitted) replys
      have hpos : 0 < reply.replyComments.length := List.length_pos_iff.2 hnil
      simp only [if_pos hpos, hreply, hreplys, if_neg hnil]
      simp

end

/-- The comments of a list that have replies. -/
def withReplys (comments : List Comment) : ℕ := comments.countP fun comment => !comment.replyComments.isEmpty

theorem withReplys_append (comments comments' : List Comment) :
    withReplys (comments ++ comments') = withReplys comments + withReplys comments' := by
  unfold withReplys
  rw [List.countP_append]

theorem withReplys_eq_zero {comments : List Comment} :
    withReplys comments = 0 ↔ ∀ comment ∈ comments, comment.replyComments = [] := by
  unfold withReplys
  simp

mutual

/-- A comment is emitted once, and once more where it has replies. -/
theorem length_emitted : (comment : Comment) →
    comment.emitted.length = 1 + comment.descendants.length + withReplys comment.descendants
  | mk id replys => by
    have hreplys := length_emittedReplys replys
    rw [emitted, descendants, List.length_cons, hreplys]
    omega

theorem length_emittedReplys : (replys : List Comment) → (emittedReplys replys).length =
    (withDescendants replys).length + withReplys (withDescendants replys)
  | [] => by
    rw [emittedReplys, withDescendants]
    rfl
  | reply :: replys => by
    have hreply := length_emitted reply
    have hreplys := length_emittedReplys replys
    rw [emittedReplys, withDescendants, withReplys_append, List.length_append, List.length_append, List.length_cons,
      List.length_cons, hreplys]
    by_cases hnil : reply.replyComments = []
    · have hnone := descendants_of_nil hnil
      have hzero : withReplys (reply :: reply.descendants) = 0 := withReplys_eq_zero.2 (by simp [hnil, hnone])
      rw [if_pos hnil, hzero, hnone]
      simp only [List.length_nil]
      omega
    · have hone : withReplys (reply :: reply.descendants) = withReplys reply.descendants + 1 := by
        unfold withReplys
        exact List.countP_cons_of_pos (by simp [hnil])
      rw [if_neg hnil, hone, hreply]
      omega

end

mutual

/-- What is emitted for a comment is the comment and those below it. -/
theorem mem_emitted (d : Comment) : (comment : Comment) → (d ∈ comment.emitted ↔ d = comment ∨ d ∈ comment.descendants)
  | mk id replys => by
    have hreplys := mem_emittedReplys d replys
    rw [emitted, descendants, List.mem_cons, hreplys]

theorem mem_emittedReplys (d : Comment) : (replys : List Comment) →
    (d ∈ emittedReplys replys ↔ d ∈ withDescendants replys)
  | [] => by rw [emittedReplys, withDescendants]
  | reply :: replys => by
    have hreply := mem_emitted d reply
    have hreplys := mem_emittedReplys d replys
    rw [emittedReplys, withDescendants, List.mem_append, List.mem_append, List.mem_cons, List.mem_cons, hreplys]
    by_cases hnil : reply.replyComments = []
    · have hnone := descendants_of_nil hnil
      rw [if_pos hnil, hnone]
    · rw [if_neg hnil, hreply, or_self_left]

end

/-- The comments of a list are among those with the ones below. -/
theorem mem_withDescendants {comment : Comment} {comments : List Comment} (h : comment ∈ comments) :
    comment ∈ withDescendants comments ∧ comment.descendants.Sublist (withDescendants comments) := by
  induction comments with
  | nil => exact absurd h List.not_mem_nil
  | cons first comments ih =>
    rw [withDescendants]
    rcases List.mem_cons.1 h with rfl | hmem
    · refine ⟨List.mem_append_left _ List.mem_cons_self, ?_⟩
      exact (List.sublist_cons_self _ _).trans (List.sublist_append_left _ _)
    · obtain ⟨hwith, hsub⟩ := ih hmem
      exact ⟨List.mem_append_right _ hwith, hsub.trans (List.sublist_append_right _ _)⟩

theorem mem_descendants_of_reply {comment reply : Comment} (h : reply ∈ comment.replyComments) :
    reply ∈ comment.descendants := by
  rw [descendants_eq]
  exact (mem_withDescendants h).1

mutual

/-- Every comment comes before its replies. -/
theorem before_replys {p r : Comment} (hr : r ∈ p.replyComments) : (comment : Comment) →
    p ∈ comment.descendants → [p, r].Sublist comment.descendants
  | mk id replys => by
    intro hp
    rw [descendants] at hp ⊢
    exact before_replys_all hr replys hp

theorem before_replys_all {p r : Comment} (hr : r ∈ p.replyComments) : (comments : List Comment) →
    p ∈ withDescendants comments → [p, r].Sublist (withDescendants comments)
  | [] => by
    intro hp
    rw [withDescendants] at hp
    exact absurd hp List.not_mem_nil
  | comment :: comments => by
    intro hp
    rw [withDescendants] at hp ⊢
    rcases List.mem_append.1 hp with hp | hp
    · refine List.Sublist.trans ?_ (List.sublist_append_left _ _)
      rcases List.mem_cons.1 hp with rfl | hp
      · exact List.Sublist.cons_cons p (List.singleton_sublist.2 (mem_descendants_of_reply hr))
      · exact (before_replys hr comment hp).trans (List.sublist_cons_self _ _)
    · exact (before_replys_all hr comments hp).trans (List.sublist_append_right _ _)

end

/-- The replies in the view of a comment. -/
def flatReplys (comment : Comment) : List Comment := comment.replyComments.flatMap emitted

def flatView (comment : Comment) : Comment := mk comment.id comment.flatReplys

/-- The loop of `combineChildren` over the replies. -/
theorem foldl_recursively (tempReplys replys : List Comment) :
    replys.foldl recursively tempReplys = tempReplys ++ replys.flatMap emitted := by
  induction replys generalizing tempReplys with
  | nil => rw [List.foldl_nil, List.flatMap_nil, List.append_nil]
  | cons reply replys ih =>
    rw [List.foldl_cons, ih, recursively_eq, List.flatMap_cons, List.append_assoc]

theorem combineChildren_eq (comments : List Comment) : combineChildren [] comments = (comments.map flatView, []) := by
  induction comments with
  | nil => rfl
  | cons comment comments ih =>
    rw [combineChildren, ih]
    simp only [foldl_recursively, List.nil_append, List.map_cons]
    rfl

theorem eachComment_eq (comments : List Comment) : eachComment [] comments = (comments.map flatView, []) := by
  have hcopy : (fun comment : Comment => mk comment.id comment.replyComments) = fun comment => comment := by
    funext comment
    cases comment
    rfl
  unfold eachComment
  rw [hcopy, List.map_id']
  exact combineChildren_eq comments

/-- **No comment below is lost, and none is added.** -/
theorem mem_flatReplys {comment d : Comment} : d ∈ comment.flatReplys ↔ d ∈ comment.descendants := by
  rw [descendants_eq]
  unfold flatReplys
  induction comment.replyComments with
  | nil => rw [List.flatMap_nil, withDescendants]
  | cons reply replys ih =>
    rw [List.flatMap_cons, withDescendants, List.mem_append, List.mem_append, mem_emitted, ih, List.mem_cons]

theorem length_flatMap_emitted (replys : List Comment) : (replys.flatMap emitted).length =
    (withDescendants replys).length + (replys.map fun reply => withReplys reply.descendants).sum := by
  induction replys with
  | nil => rw [withDescendants]; rfl
  | cons reply replys ih =>
    rw [List.flatMap_cons, withDescendants, List.length_append, List.length_append, List.length_cons, ih,
      length_emitted, List.map_cons, List.sum_cons]
    omega

/-- A comment whose replies have none. -/
theorem emitted_of_leaves {reply : Comment} (h : ∀ r ∈ reply.replyComments, r.replyComments = []) :
    reply.emitted = reply :: reply.descendants := by
  rw [emitted_eq, descendants_eq]
  congr 1
  generalize reply.replyComments = replys at h
  induction replys with
  | nil => rw [emittedReplys, withDescendants]
  | cons r rs ih =>
    have hnil := h r List.mem_cons_self
    have hnone := descendants_of_nil hnil
    rw [emittedReplys, withDescendants, if_pos hnil, hnone, ih fun r' hr' => h r' (List.mem_cons_of_mem _ hr')]

/-- Where the replies of replies have none, the view has each comment once. -/
theorem flatReplys_of_leaves {comment : Comment}
    (h : ∀ reply ∈ comment.replyComments, ∀ r ∈ reply.replyComments, r.replyComments = []) :
    comment.flatReplys = comment.descendants := by
  rw [descendants_eq]
  unfold flatReplys
  generalize comment.replyComments = replys at h
  induction replys with
  | nil => rw [List.flatMap_nil, withDescendants]
  | cons reply replys ih =>
    rw [List.flatMap_cons, withDescendants, emitted_of_leaves (h reply List.mem_cons_self),
      ih fun reply' hreply' => h reply' (List.mem_cons_of_mem _ hreply')]

/-- Where the view has each comment once, the replies of replies have none: their replies would make
it longer. -/
theorem leaves_of_perm {comment : Comment} (h : comment.flatReplys.Perm comment.descendants) :
    ∀ reply ∈ comment.replyComments, ∀ r ∈ reply.replyComments, r.replyComments = [] := by
  intro reply hreply r hr
  have hlength := h.length_eq
  rw [descendants_eq] at hlength
  unfold flatReplys at hlength
  rw [length_flatMap_emitted] at hlength
  have hsum : (comment.replyComments.map fun reply => withReplys reply.descendants).sum = 0 := by omega
  have hzero : withReplys reply.descendants = 0 :=
    List.sum_eq_zero_iff_forall_eq_nat.1 hsum _ (List.mem_map.2 ⟨reply, hreply, rfl⟩)
  exact withReplys_eq_zero.1 hzero r (mem_descendants_of_reply hr)

end Comment

/-- The comments of a blog, no two of one id. -/
structure CommentForest where
  comments : List Comment
  nodup : ((Comment.withDescendants comments).map Comment.id).Nodup

/-- The view of a comment has every comment below it once, each before its replies, and no other. -/
def Flattens (comment view : Comment) : Prop :=
  view.id = comment.id ∧ view.replyComments.Nodup ∧ (∀ d, d ∈ view.replyComments ↔ d ∈ comment.descendants) ∧
    ∀ p ∈ comment.descendants, ∀ r ∈ p.replyComments, [p, r].Sublist view.replyComments

/-- The view of a comment in a forest is right just where the replies of its replies have none. -/
theorem flattens_flatView_iff (F : CommentForest) {comment : Comment} (h : comment ∈ F.comments) :
    Flattens comment comment.flatView ↔
      ∀ reply ∈ comment.replyComments, ∀ r ∈ reply.replyComments, r.replyComments = [] := by
  have hnodup : comment.descendants.Nodup := by
    have hall : (Comment.withDescendants F.comments).Nodup :=
      List.Nodup.of_map Comment.id F.nodup
    exact hall.sublist (Comment.mem_withDescendants h).2
  constructor
  · rintro ⟨-, hview, hmem, -⟩
    exact Comment.leaves_of_perm ((List.perm_ext_iff_of_nodup hview hnodup).2 hmem)
  · intro hleaves
    have hview : comment.flatView.replyComments = comment.descendants := Comment.flatReplys_of_leaves hleaves
    unfold Flattens
    rw [hview]
    exact ⟨rfl, hnodup, fun d => Iff.rfl, fun p hp r hr => Comment.before_replys hr comment hp⟩

/-- **The threads of the comments.** One view for each comment, in order. -/
theorem comments_flattened (F : CommentForest) : ∃ views,
    ({} : CommentService).listCommentByBlogId F.comments = (views, {}) ∧
    views.map Comment.id = F.comments.map Comment.id ∧
    (List.Forall₂ Flattens F.comments views ↔ ∀ comment ∈ F.comments, ∀ reply ∈ comment.replyComments,
      ∀ r ∈ reply.replyComments, r.replyComments = []) := by
  refine ⟨F.comments.map Comment.flatView, ?_, ?_, ?_⟩
  · unfold CommentService.listCommentByBlogId
    rw [Comment.eachComment_eq]
  · rw [List.map_map]
    rfl
  · rw [List.forall₂_map_right_iff, List.forall₂_same]
    exact forall₂_congr fun comment h => flattens_flatView_iff F h

/-- A comment, its reply, a reply to that, and one more. -/
def fourDeep : CommentForest := ⟨[.mk 1 [.mk 2 [.mk 3 [.mk 4 []]]]], by decide⟩

/-- **The third comment is in the view twice.** -/
theorem third_twice : ∃ views, ({} : CommentService).listCommentByBlogId fourDeep.comments = (views, {}) ∧
    views.map (fun view => view.replyComments.map Comment.id) = [[2, 3, 3, 4]] ∧
    ¬ List.Forall₂ Flattens fourDeep.comments views := by
  refine ⟨_, rfl, by decide, fun h => ?_⟩
  cases h with
  | cons hflattens _ =>
    have htail := (List.nodup_cons.1 hflattens.2.1).2
    exact (List.nodup_cons.1 htail).1 List.mem_cons_self

end StudyTech
