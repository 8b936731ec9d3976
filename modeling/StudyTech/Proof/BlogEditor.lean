import Mathlib.Data.Fintype.Basic
import StudyTech.Lib.Run
import StudyTech.Spec.BlogEditor

/-!
# Edits keep the tags of a blog, but not all of its views

The editor sends the ids of the tags as one text, and the tags come back from it (`edit_keeps_tags`): the
blog has the tags of the page that there were at the post. The number of the views is not on the page: an
edit writes the number that it has read, so a blog never has more views than it had readers, and has as many
if none came between the read and the write of an edit (`views_counted`).
-/

namespace StudyTech

open Lib

section Tags

theorem tagsToIdsLoop_true (ids : String) (tags : List ℤ) :
    tagsToIdsLoop true ids tags = ",".intercalate (ids :: tags.map longText) := by
  induction tags generalizing ids with
  | nil => exact String.intercalate_singleton.symm
  | cons tag tags ih =>
    have hnext : tagsToIdsLoop true ids (tag :: tags) = tagsToIdsLoop true (ids ++ "," ++ longText tag) tags := rfl
    rw [hnext, ih, List.map_cons, String.intercalate_cons_cons, String.intercalate_cons_append]

/-- `tagIds` is the list of the ids, joined with commas. -/
theorem tagsToIds_eq (tagIds : Option String) {tags : List ℤ} (hne : tags ≠ []) :
    tagsToIds tagIds tags = some (",".intercalate (tags.map longText)) := by
  unfold tagsToIds
  rw [if_pos hne]
  cases tags with
  | nil => exact absurd rfl hne
  | cons tag tags =>
    have hfirst : tagsToIdsLoop false "" (tag :: tags) = tagsToIdsLoop true (longText tag) tags := by
      show tagsToIdsLoop true ("" ++ longText tag) tags = _
      rw [String.empty_append]
    rw [hfirst, tagsToIdsLoop_true, List.map_cons]

theorem convertLoop_ok {ids : List String} {list : List ℤ} (h : ids.map parseLong = list.map some) :
    convertLoop ids = .ok list := by
  induction ids generalizing list with
  | nil =>
    cases list with
    | nil => rfl
    | cons n list => cases h
  | cons id ids ih =>
    cases list with
    | nil => cases h
    | cons n list =>
      rw [List.map_cons, List.map_cons] at h
      obtain ⟨hid, hids⟩ := List.cons_eq_cons.1 h
      simp only [convertLoop, hid, ih hids]
      rfl

/-- **The ids on the page are read back.** -/
theorem convertToList_page {tags : List ℤ} (hlong : ∀ t ∈ tags, IsLong t) :
    convertToList (some ((tagsToIds none tags).getD "")) = .ok tags := by
  by_cases hne : tags = []
  · subst hne
    rfl
  · have hpage : (tagsToIds none tags).getD "" = ",".intercalate (tags.map longText) := by
      rw [tagsToIds_eq none hne]
      rfl
    have hparse := parse_join hne hlong
    have hsome : ",".intercalate (tags.map longText) ≠ "" := by
      intro hempty
      -- the empty text is no list of ids
      rw [hempty] at hparse
      have hnone : parseLong "" = none := by decide
      cases tags with
      | nil => exact hne rfl
      | cons t tags => exact nomatch hnone.symm.trans (List.cons_eq_cons.1 hparse).1
    unfold convertToList
    rw [hpage]
    dsimp only
    rw [if_neg hsome, convertLoop_ok hparse]

/-- The table in its order, and the list, have the same tags. -/
theorem filter_table_perm {table list : List ℤ} (htable : table.Nodup) (hlist : list.Nodup) :
    (table.filter (· ∈ list)).Perm (list.filter (· ∈ table)) := by
  refine (List.perm_ext_iff_of_nodup (htable.filter _) (hlist.filter _)).2 fun t => ?_
  rw [List.mem_filter, List.mem_filter, decide_eq_true_iff, decide_eq_true_iff]
  exact and_comm

end Tags

variable {ρ : Type}

/-- What a post is about to write. -/
theorem blogPost_ok {store : BlogStore ρ} {blog : BlogForm} {user : Option ℤ} {now : ℤ} {id : Option ℤ} {b : BlogRow}
    (h : store.post blog user now = .ok (id, b)) : ∃ type tags, listTag store.tags blog.tagIds = .ok tags ∧
      id = blog.id ∧ (id = none ∧ b = blog.newBlog type tags user now ∨
        ∃ i old, id = some i ∧ (i, old) ∈ store.blogs ∧ b = blog.copyProperties type tags user now old) := by
  unfold BlogStore.post at h
  split at h
  · cases h
  · cases h
  · next type htype =>
    split at h
    · cases h
    · next tags htags =>
      refine ⟨type, tags, htags, ?_⟩
      split at h
      · next hid =>
        cases h
        exact ⟨hid.symm, .inl ⟨rfl, rfl⟩⟩
      · next i hid =>
        split at h
        · cases h
        · next old hold =>
          cases h
          exact ⟨hid.symm, .inr ⟨i, old, rfl, mem_of_findRow hold, rfl⟩⟩

theorem listTag_ok {table tags : List ℤ} {ids : Option String} (h : listTag table ids = .ok tags) :
    ∃ list, convertToList ids = .ok list ∧ tags = table.filter (· ∈ list) := by
  unfold listTag at h
  cases hlist : convertToList ids with
  | error e =>
    rw [hlist] at h
    cases h
  | ok list =>
    rw [hlist] at h
    cases h
    exact ⟨list, rfl, rfl⟩

theorem blogPost_tags {store : BlogStore ρ} {blog : BlogForm} {user : Option ℤ} {now : ℤ} {id : Option ℤ} {b : BlogRow}
    (h : store.post blog user now = .ok (id, b)) : listTag store.tags blog.tagIds = .ok b.tags := by
  obtain ⟨type, tags, htags, -, ⟨-, rfl⟩ | ⟨i, old, -, -, rfl⟩⟩ := blogPost_ok h
  · exact htags
  · exact htags

/-- What a step can do. -/
inductive BlogChange [DecidableEq ρ] (store : BlogStore ρ) : BlogLabel ρ → BlogStore ρ → Prop
  | refused (l : BlogLabel ρ) : BlogChange store l store
  | write {r : ρ} {blog : BlogForm} {user : Option ℤ} {now : ℤ} {id : Option ℤ} {b : BlogRow}
    (hfree : store.writing r = none) (hpost : store.post blog user now = .ok (id, b)) :
    BlogChange store (.post r blog user now)
      { store with writing := Function.update store.writing r (some (id, b)) }
  | insert {r : ρ} {seq : ℤ} {b : BlogRow} (hwriting : store.writing r = some (none, b))
    (hseq : seq ∉ store.usedIds) (htags : ∀ t ∈ b.tags, t ∈ store.tags) :
    BlogChange store (.commit r seq) { store with
      blogs := store.blogs ++ [(seq, b)]
      usedIds := seq :: store.usedIds
      writing := Function.update store.writing r none
      viewed := Function.update store.viewed seq 0 }
  | update {r : ρ} {seq id : ℤ} {b : BlogRow} (hwriting : store.writing r = some (some id, b))
    (hid : id ∈ store.blogs.map Prod.fst) (htags : ∀ t ∈ b.tags, t ∈ store.tags) :
    BlogChange store (.commit r seq) { store with
      blogs := alterRow store.blogs id fun _ => b
      writing := Function.update store.writing r none }
  | rollback (r : ρ) : BlogChange store (.rollback r) { store with writing := Function.update store.writing r none }
  | view (id : ℤ) : BlogChange store (.view id) { store with
      blogs := alterRow store.blogs id BlogRow.updateViews
      viewed := Function.update store.viewed id (store.viewed id + 1) }
  | delete (id : ℤ) : BlogChange store (.delete id) { store with blogs := store.blogs.filter fun p => p.1 ≠ id }
  | addTag {seq : ℤ} (hseq : seq ∉ store.usedIds) (hlong : IsLong seq) :
    BlogChange store (.addTag seq) { store with tags := store.tags ++ [seq], usedIds := seq :: store.usedIds }
  | removeTag {id : ℤ} (hid : ∀ p ∈ store.blogs, id ∉ p.2.tags) :
    BlogChange store (.removeTag id) { store with tags := store.tags.filter (· ≠ id) }

variable [DecidableEq ρ] {store store' : BlogStore ρ} {l : BlogLabel ρ}

theorem blogStep_cases (hs : blogStep store l = some store') : BlogChange store l store' := by
  cases l with
  | post r blog user now =>
    simp only [blogStep] at hs
    split at hs
    · next hfree =>
      split at hs
      · next work hwork =>
        cases hs
        exact .write hfree hwork
      · cases hs
        exact .refused _
    · cases hs
  | commit r seq =>
    simp only [blogStep] at hs
    split at hs
    · cases hs
    · next b hwriting =>
      split at hs
      · next h =>
        cases hs
        exact .insert hwriting h.1 h.2
      · cases hs
    · next id b hwriting =>
      split at hs
      · next h =>
        cases hs
        exact .update hwriting h.1 h.2
      · cases hs
  | rollback r =>
    cases hs
    exact .rollback r
  | view id =>
    simp only [blogStep] at hs
    split at hs
    · cases hs
      exact .view id
    · cases hs
      exact .refused _
  | delete id =>
    cases hs
    exact .delete id
  | addTag seq =>
    simp only [blogStep] at hs
    split at hs
    · next h =>
      cases hs
      exact .addTag h.1 h.2
    · cases hs
  | removeTag id =>
    simp only [blogStep] at hs
    split at hs
    · next h =>
      cases hs
      exact .removeTag h
    · cases hs
      exact .refused _

/-- A transaction that there is after an update of one of them was there before. -/
theorem writing_of_update {writing : ρ → Option (Option ℤ × BlogRow)} {r r' : ρ} {work : Option ℤ × BlogRow}
    (h : Function.update writing r none r' = some work) : writing r' = some work := by
  by_cases hr : r' = r
  · rw [hr, Function.update_self] at h
    cases h
  · rwa [Function.update_of_ne hr] at h

theorem writing_of_update_some {writing : ρ → Option (Option ℤ × BlogRow)} {r r' : ρ}
    {work work' : Option ℤ × BlogRow} (h : Function.update writing r (some work') r' = some work) :
    work = work' ∨ writing r' = some work := by
  by_cases hr : r' = r
  · rw [hr, Function.update_self] at h
    exact .inl (Option.some.inj h).symm
  · rw [Function.update_of_ne hr] at h
    exact .inr h

/-- The ids, and the tags of the blogs. -/
structure BlogInv (store : BlogStore ρ) : Prop where
  ids : (store.blogs.map Prod.fst).Nodup
  usedIds : ∀ p ∈ store.blogs, p.1 ∈ store.usedIds
  edited : ∀ r id b, store.writing r = some (some id, b) → id ∈ store.usedIds
  tags : store.tags.Nodup
  tagsUsed : ∀ t ∈ store.tags, t ∈ store.usedIds
  long : ∀ t ∈ store.tags, IsLong t
  rowTags : ∀ p ∈ store.blogs, p.2.tags.Nodup ∧ ∀ t ∈ p.2.tags, t ∈ store.tags
  workTags : ∀ r id b, store.writing r = some (id, b) → b.tags.Nodup

omit [DecidableEq ρ] in
theorem BlogInv.init : BlogInv (BlogStore.init ρ) where
  ids := List.nodup_nil
  usedIds := fun _ hp => absurd hp List.not_mem_nil
  edited := fun _ _ _ h => nomatch h
  tags := List.nodup_nil
  tagsUsed := fun _ ht => absurd ht List.not_mem_nil
  long := fun _ ht => absurd ht List.not_mem_nil
  rowTags := fun _ hp => absurd hp List.not_mem_nil
  workTags := fun _ _ _ h => nomatch h

section Steps

variable {r : ρ} {seq id : ℤ} {b : BlogRow}

/-- The blog that is about to be written has tags of the table, each once. -/
theorem BlogInv.write (h : BlogInv store) {blog : BlogForm} {user : Option ℤ} {now : ℤ} {id : Option ℤ}
    (hpost : store.post blog user now = .ok (id, b)) :
    BlogInv { store with writing := Function.update store.writing r (some (id, b)) } := by
  refine { h with edited := ?_, workTags := ?_ }
  · intro r' i b' hw
    rcases writing_of_update_some hw with heq | hw
    · cases heq
      obtain ⟨-, -, -, -, ⟨hnone, -⟩ | ⟨j, old, hj, hold, -⟩⟩ := blogPost_ok hpost
      · cases hnone
      · cases hj
        exact h.usedIds _ hold
    · exact h.edited r' i b' hw
  · intro r' i b' hw
    rcases writing_of_update_some hw with heq | hw
    · cases heq
      obtain ⟨list, -, htags⟩ := listTag_ok (blogPost_tags hpost)
      rw [htags]
      exact h.tags.filter _
    · exact h.workTags r' i b' hw

theorem BlogInv.insert (h : BlogInv store) (hwriting : store.writing r = some (none, b)) (hseq : seq ∉ store.usedIds)
    (htags : ∀ t ∈ b.tags, t ∈ store.tags) : BlogInv { store with
      blogs := store.blogs ++ [(seq, b)]
      usedIds := seq :: store.usedIds
      writing := Function.update store.writing r none
      viewed := Function.update store.viewed seq 0 } := by
  refine ⟨?_, ?_, ?_, h.tags, ?_, h.long, ?_, fun r' i b' hw => h.workTags r' i b' (writing_of_update hw)⟩
  · refine nodup_ids_append h.ids fun hmem => hseq ?_
    obtain ⟨p, hp, rfl⟩ := List.mem_map.1 hmem
    exact h.usedIds p hp
  · intro p hp
    rcases List.mem_append.1 hp with hp | hp
    · exact List.mem_cons_of_mem _ (h.usedIds p hp)
    · rw [List.mem_singleton.1 hp]
      exact List.mem_cons_self
  · intro r' i b' hw
    exact List.mem_cons_of_mem _ (h.edited r' i b' (writing_of_update hw))
  · intro t ht
    exact List.mem_cons_of_mem _ (h.tagsUsed t ht)
  · intro p hp
    rcases List.mem_append.1 hp with hp | hp
    · exact h.rowTags p hp
    · rw [List.mem_singleton.1 hp]
      exact ⟨h.workTags r none b hwriting, htags⟩

omit [DecidableEq ρ] in
/-- A row is replaced by one that has tags of the table, each once. -/
theorem BlogInv.alter (h : BlogInv store) {f : BlogRow → BlogRow} {viewed : ℤ → ℕ}
    (hf : ∀ old, (id, old) ∈ store.blogs → (f old).tags.Nodup ∧ ∀ t ∈ (f old).tags, t ∈ store.tags) :
    BlogInv { store with blogs := alterRow store.blogs id f, viewed := viewed } := by
  refine { h with ids := ?_, usedIds := ?_, rowTags := ?_ }
  · rw [alterRow_ids]
    exact h.ids
  · intro p hp
    rcases mem_alterRow hp with ⟨hp, -⟩ | ⟨old, hold, rfl⟩
    · exact h.usedIds p hp
    · exact h.usedIds (id, old) hold
  · intro p hp
    rcases mem_alterRow hp with ⟨hp, -⟩ | ⟨old, hold, rfl⟩
    · exact h.rowTags p hp
    · exact hf old hold

/-- A transaction ends. -/
theorem BlogInv.rollback (h : BlogInv store) (r : ρ) :
    BlogInv { store with writing := Function.update store.writing r none } :=
  { h with
    edited := fun r' i b' hw => h.edited r' i b' (writing_of_update hw)
    workTags := fun r' i b' hw => h.workTags r' i b' (writing_of_update hw) }

omit [DecidableEq ρ] in
theorem BlogInv.delete (h : BlogInv store) (id : ℤ) :
    BlogInv { store with blogs := store.blogs.filter fun p => p.1 ≠ id } := by
  refine { h with ids := ?_, usedIds := ?_, rowTags := ?_ }
  · exact nodup_ids_filter h.ids _
  · exact fun p hp => h.usedIds p (List.mem_of_mem_filter hp)
  · exact fun p hp => h.rowTags p (List.mem_of_mem_filter hp)

omit [DecidableEq ρ] in
theorem BlogInv.addTag (h : BlogInv store) (hseq : seq ∉ store.usedIds) (hlong : IsLong seq) :
    BlogInv { store with tags := store.tags ++ [seq], usedIds := seq :: store.usedIds } := by
  refine ⟨h.ids, ?_, ?_, ?_, ?_, ?_, ?_, h.workTags⟩
  · exact fun p hp => List.mem_cons_of_mem _ (h.usedIds p hp)
  · exact fun r' i b' hw => List.mem_cons_of_mem _ (h.edited r' i b' hw)
  · refine List.nodup_append.2 ⟨h.tags, List.nodup_singleton seq, ?_⟩
    intro t ht u hu
    obtain rfl := List.mem_singleton.1 hu
    rintro rfl
    exact hseq (h.tagsUsed t ht)
  · intro t ht
    rcases List.mem_append.1 ht with ht | ht
    · exact List.mem_cons_of_mem _ (h.tagsUsed t ht)
    · rw [List.mem_singleton.1 ht]
      exact List.mem_cons_self
  · intro t ht
    rcases List.mem_append.1 ht with ht | ht
    · exact h.long t ht
    · rw [List.mem_singleton.1 ht]
      exact hlong
  · intro p hp
    obtain ⟨hnodup, hmem⟩ := h.rowTags p hp
    exact ⟨hnodup, fun t ht => List.mem_append_left _ (hmem t ht)⟩

omit [DecidableEq ρ] in
theorem BlogInv.removeTag (h : BlogInv store) (hid : ∀ p ∈ store.blogs, id ∉ p.2.tags) :
    BlogInv { store with tags := store.tags.filter (· ≠ id) } := by
  refine { h with tags := ?_, tagsUsed := ?_, long := ?_, rowTags := ?_ }
  · exact h.tags.filter _
  · exact fun t ht => h.tagsUsed t (List.mem_of_mem_filter ht)
  · exact fun t ht => h.long t (List.mem_of_mem_filter ht)
  · intro p hp
    obtain ⟨hnodup, hmem⟩ := h.rowTags p hp
    refine ⟨hnodup, fun t ht => List.mem_filter.2 ⟨hmem t ht, decide_eq_true ?_⟩⟩
    rintro rfl
    exact hid p hp ht

theorem blogInv_step (h : BlogInv store) (hs : blogStep store l = some store') : BlogInv store' := by
  cases blogStep_cases hs with
  | refused => exact h
  | write hfree hpost => exact h.write hpost
  | insert hwriting hseq htags => exact h.insert hwriting hseq htags
  | @update r seq id b hwriting hid htags =>
    exact (h.rollback r).alter (f := fun _ => b) fun _ _ => ⟨h.workTags r (some id) b hwriting, htags⟩
  | rollback r => exact h.rollback r
  | view id => exact h.alter fun old hold => h.rowTags (id, old) hold
  | delete id => exact h.delete id
  | addTag hseq hlong => exact h.addTag hseq hlong
  | removeTag hid => exact h.removeTag hid

end Steps

theorem BlogInv.run {ls : List (BlogLabel ρ)} (h : BlogInv store) (hrun : exec blogStep store ls = some store') :
    BlogInv store' :=
  inv_of_exec (fun _ _ _ h hs => blogInv_step h hs) h hrun

/-- The forms of the editor have no field for the number of views and the time of the creation. -/
def FromEditor : BlogLabel ρ → Prop
  | .post _ blog _ _ => blog.views = none ∧ blog.createTime = none
  | _ => True

/-- The blog is viewed while no transaction is about to write an edit of it. -/
def ViewedBetween (blogId : ℤ) (store : BlogStore ρ) : BlogLabel ρ → Prop
  | .view id => id = blogId → ∀ r, (store.writing r).bind Prod.fst ≠ some blogId
  | _ => True

instance : DecidablePred (@FromEditor ρ)
  | .post _ _ _ _ => inferInstanceAs (Decidable (_ ∧ _))
  | .commit _ _ => isTrue trivial
  | .rollback _ => isTrue trivial
  | .view _ => isTrue trivial
  | .delete _ => isTrue trivial
  | .addTag _ => isTrue trivial
  | .removeTag _ => isTrue trivial

instance [Fintype ρ] (blogId : ℤ) (store : BlogStore ρ) : DecidablePred (ViewedBetween blogId store)
  | .view id => inferInstanceAs (Decidable (id = blogId → ∀ r, (store.writing r).bind Prod.fst ≠ some blogId))
  | .post _ _ _ _ => isTrue trivial
  | .commit _ _ => isTrue trivial
  | .rollback _ => isTrue trivial
  | .delete _ => isTrue trivial
  | .addTag _ => isTrue trivial
  | .removeTag _ => isTrue trivial

/-- A property of blogs and of the numbers of their views, for all rows and all edits of rows. -/
structure RowsInv (P : ℤ → BlogRow → ℕ → Prop) (Q : BlogRow → Prop) (store : BlogStore ρ) : Prop where
  rows : ∀ p ∈ store.blogs, P p.1 p.2 (store.viewed p.1)
  edits : ∀ r id b, store.writing r = some (some id, b) → P id b (store.viewed id)
  inserts : ∀ r b, store.writing r = some (none, b) → Q b

/-- What the editor, a new blog and a view keep of a property. -/
structure RowProperty (P : ℤ → BlogRow → ℕ → Prop) (Q : BlogRow → Prop) : Prop where
  copy : ∀ (blog : BlogForm) type tags user now id old n, blog.views = none → blog.createTime = none →
    P id old n → P id (blog.copyProperties type tags user now old) n
  new : ∀ (blog : BlogForm) type tags user now, Q (blog.newBlog type tags user now)
  view : ∀ id b n, P id b n → P id b.updateViews (n + 1)

section RowsInv

variable {P : ℤ → BlogRow → ℕ → Prop} {Q : BlogRow → Prop}

omit [DecidableEq ρ] in
theorem RowsInv.init : RowsInv P Q (BlogStore.init ρ) where
  rows := fun _ hp => absurd hp List.not_mem_nil
  edits := fun _ _ _ h => nomatch h
  inserts := fun _ _ h => nomatch h

/-- A transaction has read what it edits. -/
theorem RowsInv.write (hP : RowProperty P Q) (h : RowsInv P Q store) {r : ρ} {blog : BlogForm} {user : Option ℤ}
    {now : ℤ} {id : Option ℤ} {b : BlogRow} (hform : blog.views = none ∧ blog.createTime = none)
    (hpost : store.post blog user now = .ok (id, b)) :
    RowsInv P Q { store with writing := Function.update store.writing r (some (id, b)) } := by
  obtain ⟨type, tags, -, -, hread⟩ := blogPost_ok hpost
  refine { h with edits := ?_, inserts := ?_ }
  · intro r' i b' hw
    rcases writing_of_update_some hw with heq | hw
    · cases heq
      rcases hread with ⟨hnone, -⟩ | ⟨j, old, hj, hold, rfl⟩
      · cases hnone
      · cases hj
        exact hP.copy blog type tags user now i old _ hform.1 hform.2 (h.rows (i, old) hold)
    · exact h.edits r' i b' hw
  · intro r' b' hw
    rcases writing_of_update_some hw with heq | hw
    · cases heq
      rcases hread with ⟨-, rfl⟩ | ⟨j, old, hj, -, -⟩
      · exact hP.new blog type tags user now
      · cases hj
    · exact h.inserts r' b' hw

/-- A transaction ends. -/
theorem RowsInv.rollback (h : RowsInv P Q store) (r : ρ) :
    RowsInv P Q { store with writing := Function.update store.writing r none } :=
  { h with
    edits := fun r' i b' hw => h.edits r' i b' (writing_of_update hw)
    inserts := fun r' b' hw => h.inserts r' b' (writing_of_update hw) }

/-- A new blog has a new id, so that the other numbers of views stay. -/
theorem RowsInv.insert (hinv : BlogInv store) (h : RowsInv P Q store) {r : ρ} {seq : ℤ} {b : BlogRow}
    (hseq : seq ∉ store.usedIds) (hb : P seq b 0) : RowsInv P Q { store with
      blogs := store.blogs ++ [(seq, b)]
      usedIds := seq :: store.usedIds
      writing := Function.update store.writing r none
      viewed := Function.update store.viewed seq 0 } := by
  have hother : ∀ {id : ℤ}, id ∈ store.usedIds → Function.update store.viewed seq 0 id = store.viewed id := by
    intro id hid
    refine Function.update_of_ne ?_ 0 store.viewed
    rintro rfl
    exact hseq hid
  refine ⟨?_, ?_, fun r' b' hw => h.inserts r' b' (writing_of_update hw)⟩
  · intro p hp
    rcases List.mem_append.1 hp with hp | hp
    · show P p.1 p.2 (Function.update store.viewed seq 0 p.1)
      rw [hother (hinv.usedIds p hp)]
      exact h.rows p hp
    · rw [List.mem_singleton.1 hp]
      show P seq b (Function.update store.viewed seq 0 seq)
      rw [Function.update_self]
      exact hb
  · intro r' i b' hw
    have hbefore := writing_of_update hw
    show P i b' (Function.update store.viewed seq 0 i)
    rw [hother (hinv.edited r' i b' hbefore)]
    exact h.edits r' i b' hbefore

omit [DecidableEq ρ] in
/-- A view of a blog, whose edits the property stays true of. -/
theorem RowsInv.view (hP : RowProperty P Q) (h : RowsInv P Q store) {id : ℤ}
    (hview : ∀ r b, store.writing r = some (some id, b) → P id b (store.viewed id + 1)) : RowsInv P Q { store with
      blogs := alterRow store.blogs id BlogRow.updateViews
      viewed := Function.update store.viewed id (store.viewed id + 1) } := by
  refine ⟨?_, ?_, h.inserts⟩
  · intro p hp
    rcases mem_alterRow hp with ⟨hp, hne⟩ | ⟨old, hold, rfl⟩
    · show P p.1 p.2 (Function.update store.viewed id (store.viewed id + 1) p.1)
      rw [Function.update_of_ne hne]
      exact h.rows p hp
    · show P id old.updateViews (Function.update store.viewed id (store.viewed id + 1) id)
      rw [Function.update_self]
      exact hP.view id old _ (h.rows (id, old) hold)
  · intro r' i b' hw
    show P i b' (Function.update store.viewed id (store.viewed id + 1) i)
    by_cases hi : i = id
    · subst hi
      rw [Function.update_self]
      exact hview r' b' hw
    · rw [Function.update_of_ne hi]
      exact h.edits r' i b' hw

/-- **One step**, where the property holds of the blog that it saves and stays true of the edits of the blog
that it views. -/
theorem rowsInv_step (hP : RowProperty P Q) (hinv : BlogInv store) (h : RowsInv P Q store) (hform : FromEditor l)
    (hinsert : ∀ r seq b, l = .commit r seq → store.writing r = some (none, b) → seq ∉ store.usedIds → P seq b 0)
    (hview : ∀ id, l = .view id → ∀ r b, store.writing r = some (some id, b) → P id b (store.viewed id + 1))
    (hs : blogStep store l = some store') : RowsInv P Q store' := by
  cases blogStep_cases hs with
  | refused => exact h
  | write hfree hpost => exact h.write hP hform hpost
  | @insert r seq b hwriting hseq htags => exact h.insert hinv hseq (hinsert r seq b rfl hwriting hseq)
  | @update r seq id b hwriting hid htags =>
    refine { h.rollback r with rows := fun p hp => ?_ }
    rcases mem_alterRow (f := fun _ => b) hp with ⟨hp, -⟩ | ⟨old, hold, rfl⟩
    · exact h.rows p hp
    · exact h.edits r id b hwriting
  | rollback r => exact h.rollback r
  | view id => exact h.view hP (hview id rfl)
  | delete id => exact { h with rows := fun p hp => h.rows p (List.mem_of_mem_filter hp) }
  | addTag => exact { h with }
  | removeTag => exact { h with }

end RowsInv

/-- At most as many views as the blog had. -/
def ViewsAtMost (_ : ℤ) (b : BlogRow) (n : ℕ) : Prop := ∃ v, b.views = some v ∧ 0 ≤ v ∧ v ≤ n

/-- As many views as the blog had, if it is this one. -/
def ViewsExact (blogId id : ℤ) (b : BlogRow) (n : ℕ) : Prop := id = blogId → b.views = some (n : ℤ)

theorem viewsAtMost_property : RowProperty ViewsAtMost fun b => b.views = some 0 where
  copy := by
    rintro blog type tags user now id old n hviews - ⟨v, hv, hpos, hle⟩
    refine ⟨v, ?_, hpos, hle⟩
    show blog.views.or old.views = some v
    rw [hviews, Option.none_or, hv]
  new := fun _ _ _ _ _ => rfl
  view := by
    rintro id b n ⟨v, hv, hpos, hle⟩
    refine ⟨v + 1, ?_, by omega, by omega⟩
    show b.views.map (· + 1) = some (v + 1)
    rw [hv, Option.map_some]

theorem viewsExact_property (blogId : ℤ) : RowProperty (ViewsExact blogId) fun b => b.views = some 0 where
  copy := by
    intro blog type tags user now id old n hviews _ hold hid
    show blog.views.or old.views = some (n : ℤ)
    rw [hviews, Option.none_or]
    exact hold hid
  new := fun _ _ _ _ _ => rfl
  view := by
    intro id b n hb hid
    show b.views.map (· + 1) = some ((n + 1 : ℕ) : ℤ)
    rw [hb hid, Option.map_some]
    rfl

theorem viewsAtMost_step (h : BlogInv store ∧ RowsInv ViewsAtMost (fun b => b.views = some 0) store)
    (hform : FromEditor l) (hs : blogStep store l = some store') :
    BlogInv store' ∧ RowsInv ViewsAtMost (fun b => b.views = some 0) store' := by
  refine ⟨blogInv_step h.1 hs, rowsInv_step viewsAtMost_property h.1 h.2 hform ?_ ?_ hs⟩
  · intro r seq b _ hw _
    exact ⟨0, h.2.inserts r b hw, Int.le_refl 0, Int.le_refl 0⟩
  · intro id _ r b hw
    obtain ⟨v, hv, hpos, hle⟩ := h.2.edits r id b hw
    exact ⟨v, hv, hpos, by omega⟩

theorem viewsExact_step {blogId : ℤ} (h : BlogInv store ∧ RowsInv (ViewsExact blogId) (fun b => b.views = some 0) store)
    (hform : FromEditor l ∧ ViewedBetween blogId store l) (hs : blogStep store l = some store') :
    BlogInv store' ∧ RowsInv (ViewsExact blogId) (fun b => b.views = some 0) store' := by
  refine ⟨blogInv_step h.1 hs, rowsInv_step (viewsExact_property blogId) h.1 h.2 hform.1 ?_ ?_ hs⟩
  · intro r seq b _ hw _ _
    exact h.2.inserts r b hw
  · rintro id rfl r b hw rfl
    refine absurd ?_ (hform.2 rfl r)
    rw [hw]
    rfl

/-- **Views may be lost, but none is made up.** After every run of the editor and the readers a blog has at
most as many views as it was viewed, and as many if it was not viewed between the read and the end of a
transaction that edits it. -/
theorem views_counted {ls : List (BlogLabel ρ)} (hform : ∀ l ∈ ls, FromEditor l)
    (hrun : exec blogStep (BlogStore.init ρ) ls = some store) :
    (∀ p ∈ store.blogs, ∃ v, p.2.views = some v ∧ 0 ≤ v ∧ v ≤ store.viewed p.1) ∧
      ∀ blogId, Along blogStep (ViewedBetween blogId) (BlogStore.init ρ) ls →
        ∀ p ∈ store.blogs, p.1 = blogId → p.2.views = some (store.viewed p.1 : ℤ) := by
  have hforms : Along blogStep (fun _ l => FromEditor l) (BlogStore.init ρ) ls := along_of_forall_mem hform
  refine ⟨?_, fun blogId hbetween => ?_⟩
  · exact (inv_of_along (fun _ _ _ h hok hs => viewsAtMost_step h hok hs) ⟨BlogInv.init, RowsInv.init⟩ hforms
      hrun).2.rows
  · exact (inv_of_along (fun _ _ _ h hok hs => viewsExact_step h hok hs) ⟨BlogInv.init, RowsInv.init⟩
      (hforms.and hbetween) hrun).2.rows

/-- The second request edits the blog of the first one after two views. -/
def editTwice : List (BlogLabel Bool) :=
  [.addTag 1, .addTag 2, .post false { type := some (some 9), tagIds := some "2,1" } none 10, .commit false 3,
    .view 3, .view 3, .post true { id := some 3, type := some (some 9), tagIds := some "1,2" } none 11,
    .commit true 0, .view 3]

theorem views_counted_twice : ∃ store, exec blogStep (BlogStore.init Bool) editTwice = some store ∧
    ∃ p ∈ store.blogs, p.1 = 3 ∧ p.2.updateTime = some 11 ∧ p.2.views = some 3 := by
  have heval : (exec blogStep (BlogStore.init Bool) editTwice).any (fun store =>
      decide (store.viewed 3 = 3 ∧ ∃ p ∈ store.blogs, p.1 = 3 ∧ p.2.updateTime = some 11)) = true := by decide +kernel
  obtain ⟨store, hrun, heval⟩ := (Option.any_eq_true _ _).1 heval
  obtain ⟨hviewed, p, hp, hid, htime⟩ := of_decide_eq_true heval
  have hbetween : Along blogStep (ViewedBetween 3) (BlogStore.init Bool) editTwice := by decide +kernel
  have hviews := (views_counted (by decide +kernel) hrun).2 3 hbetween p hp hid
  rw [hid, hviewed] at hviews
  exact ⟨store, hrun, p, hp, hid, htime, hviews⟩

/-- A view between the read and the write of an edit is lost. -/
example : (exec blogStep (BlogStore.init Bool) [.post false { type := some (some 9) } none 10, .commit false 1,
    .post true { id := some 1, type := some (some 9) } none 11, .view 1, .commit true 0]).any (fun store =>
      decide (store.viewed 1 = 1 ∧ ∃ p ∈ store.blogs, p.1 = 1 ∧ p.2.views = some 0)) = true := by decide +kernel

section Created

/-- The time of the creation, by ids. -/
def CreatedAt (created : ℤ → Option ℤ) (id : ℤ) (b : BlogRow) (_ : ℕ) : Prop := b.createTime = created id

theorem created_property (created : ℤ → Option ℤ) : RowProperty (CreatedAt created) fun _ => True where
  copy := by
    intro blog type tags user now id old n _ htime hold
    show blog.createTime.or old.createTime = created id
    rw [htime, Option.none_or]
    exact hold
  new := fun _ _ _ _ _ => trivial
  view := fun _ _ _ hb => hb

omit [DecidableEq ρ] in
/-- Times of the creation that agree on the ids in use. -/
theorem RowsInv.created_congr {created created' : ℤ → Option ℤ} (hinv : BlogInv store)
    (h : RowsInv (CreatedAt created) (fun _ => True) store) (heq : ∀ id ∈ store.usedIds, created' id = created id) :
    RowsInv (CreatedAt created') (fun _ => True) store where
  rows := fun p hp => (h.rows p hp).trans (heq p.1 (hinv.usedIds p hp)).symm
  edits := fun r id b hw => (h.edits r id b hw).trans (heq id (hinv.edited r id b hw)).symm
  inserts := h.inserts

theorem usedIds_step (hs : blogStep store l = some store') : ∀ id ∈ store.usedIds, id ∈ store'.usedIds := by
  intro id hid
  cases blogStep_cases hs with
  | insert => exact List.mem_cons_of_mem _ hid
  | addTag => exact List.mem_cons_of_mem _ hid
  | refused | write | update | rollback | view | delete | removeTag => exact hid

theorem created_step {created : ℤ → Option ℤ} (hinv : BlogInv store)
    (h : RowsInv (CreatedAt created) (fun _ => True) store) (hform : FromEditor l)
    (hs : blogStep store l = some store') : ∃ created', (∀ id ∈ store.usedIds, created' id = created id) ∧
      RowsInv (CreatedAt created') (fun _ => True) store' := by
  by_cases hnew : ∃ r seq b, l = .commit r seq ∧ store.writing r = some (none, b) ∧ seq ∉ store.usedIds
  · obtain ⟨r, seq, b, rfl, hw, hseq⟩ := hnew
    have heq : ∀ id ∈ store.usedIds, Function.update created seq b.createTime id = created id := by
      intro id hid
      refine Function.update_of_ne ?_ _ _
      rintro rfl
      exact hseq hid
    refine ⟨Function.update created seq b.createTime, heq,
      rowsInv_step (created_property _) hinv (h.created_congr hinv heq) hform ?_ ?_ hs⟩
    · intro r' seq' b' hcommit hw' _
      cases hcommit
      rw [hw] at hw'
      cases hw'
      exact (Function.update_self seq b.createTime created).symm
    · exact fun id hview => nomatch hview
  · refine ⟨created, fun _ _ => rfl, rowsInv_step (created_property _) hinv h hform ?_ ?_ hs⟩
    · exact fun r seq b hl hw hseq => absurd ⟨r, seq, b, hl, hw, hseq⟩ hnew
    · exact fun id _ r b hw => h.edits r id b hw

theorem created_run {created : ℤ → Option ℤ} {ls : List (BlogLabel ρ)} (hinv : BlogInv store)
    (h : RowsInv (CreatedAt created) (fun _ => True) store) (hform : ∀ l ∈ ls, FromEditor l)
    (hrun : exec blogStep store ls = some store') : ∃ created', (∀ id ∈ store.usedIds, created' id = created id) ∧
      RowsInv (CreatedAt created') (fun _ => True) store' := by
  induction ls generalizing store created with
  | nil =>
    cases hrun
    exact ⟨created, fun _ _ => rfl, h⟩
  | cons l ls ih =>
    obtain ⟨m, hs, hrun⟩ := exec_cons_inv hrun
    obtain ⟨created₁, heq₁, h₁⟩ := created_step hinv h (hform l List.mem_cons_self) hs
    obtain ⟨created₂, heq₂, h₂⟩ :=
      ih (blogInv_step hinv hs) h₁ (fun l' hl' => hform l' (List.mem_cons_of_mem _ hl')) hrun
    exact ⟨created₂, fun id hid => (heq₂ id (usedIds_step hs id hid)).trans (heq₁ id hid), h₂⟩

end Created

/-- **The time of the creation stays.** Whatever is edited, viewed, deleted and saved after it. -/
theorem createTime_stays {ls ls' : List (BlogLabel ρ)} {id : ℤ} {b b' : BlogRow}
    (hform : ∀ l ∈ ls ++ ls', FromEditor l) (hrun : exec blogStep (BlogStore.init ρ) ls = some store)
    (hrun' : exec blogStep store ls' = some store') (hb : (id, b) ∈ store.blogs) (hb' : (id, b') ∈ store'.blogs) :
    b'.createTime = b.createTime := by
  have hinv : BlogInv store := BlogInv.init.run hrun
  have hinit : RowsInv (CreatedAt fun _ => none) (fun _ => True) (BlogStore.init ρ) := RowsInv.init
  obtain ⟨created, -, h⟩ :=
    created_run BlogInv.init hinit (fun l hl => hform l (List.mem_append_left _ hl)) hrun
  obtain ⟨created', heq, h'⟩ := created_run hinv h (fun l hl => hform l (List.mem_append_right _ hl)) hrun'
  calc b'.createTime = created' id := h'.rows (id, b') hb'
    _ = created id := heq id (hinv.usedIds (id, b) hb)
    _ = b.createTime := (h.rows (id, b) hb).symm

/-- The blog of the first request keeps its time. -/
theorem createTime_stays_twice : ∃ store store', exec blogStep (BlogStore.init Bool) (editTwice.take 4) = some store ∧
    exec blogStep store (editTwice.drop 4) = some store' ∧
    ∃ b b', (3, b) ∈ store.blogs ∧ (3, b') ∈ store'.blogs ∧ b'.updateTime = some 11 ∧ b'.createTime = b.createTime := by
  have heval : (exec blogStep (BlogStore.init Bool) (editTwice.take 4)).any (fun store =>
      decide (3 ∈ store.blogs.map Prod.fst) && (exec blogStep store (editTwice.drop 4)).any (fun store' =>
        decide (∃ p ∈ store'.blogs, p.1 = 3 ∧ p.2.updateTime = some 11))) = true := by decide +kernel
  obtain ⟨store, hrun, heval⟩ := (Option.any_eq_true _ _).1 heval
  obtain ⟨hid, heval⟩ := (Bool.and_eq_true _ _).mp heval
  obtain ⟨p, hp, hpid⟩ := List.mem_map.1 (of_decide_eq_true hid)
  obtain ⟨store', hrun', heval⟩ := (Option.any_eq_true _ _).1 heval
  obtain ⟨p', hp', hpid', htime⟩ := of_decide_eq_true heval
  have hb : (3, p.2) ∈ store.blogs := hpid ▸ hp
  have hb' : (3, p'.2) ∈ store'.blogs := hpid' ▸ hp'
  exact ⟨store, store', hrun, hrun', p.2, p'.2, hb, hb', htime,
    createTime_stays (by decide +kernel) hrun hrun' hb hb'⟩

section Edit

/-- The request whose transaction a step belongs to. -/
def BlogLabel.request : BlogLabel ρ → Option ρ
  | .post r _ _ _ => some r
  | .commit r _ => some r
  | .rollback r => some r
  | _ => none

/-- A step leaves the transactions of the other requests alone. -/
theorem writing_other {r : ρ} (hs : blogStep store l = some store') (hl : l.request ≠ some r) :
    store'.writing r = store.writing r := by
  have hne : ∀ {r' : ρ}, some r' ≠ some r → r ≠ r' := by
    rintro r' hr' rfl
    exact hr' rfl
  cases blogStep_cases hs with
  | write => exact Function.update_of_ne (hne hl) _ _
  | insert => exact Function.update_of_ne (hne hl) _ _
  | update => exact Function.update_of_ne (hne hl) _ _
  | rollback => exact Function.update_of_ne (hne hl) _ _
  | refused | view | delete | addTag | removeTag => rfl

theorem blogPost_step {r : ρ} {blog : BlogForm} {user : Option ℤ} {now : ℤ}
    (hs : blogStep store (.post r blog user now) = some store') :
    store'.writing r = none ∨ ∃ work, store.post blog user now = .ok work ∧ store'.writing r = some work := by
  simp only [blogStep] at hs
  split at hs
  · next hfree =>
    split at hs
    · next work hwork =>
      cases hs
      exact .inr ⟨work, hwork, Function.update_self _ _ _⟩
    · cases hs
      exact .inl hfree
  · cases hs

theorem blogCommit_step {r : ρ} {seq : ℤ} (hs : blogStep store (.commit r seq) = some store') :
    ∃ id b, store.writing r = some (id, b) ∧ ∀ i, id = some i → (i, b) ∈ store'.blogs := by
  simp only [blogStep] at hs
  split at hs
  · cases hs
  · next b hw => exact ⟨none, b, hw, fun i hi => nomatch hi⟩
  · next id b hw =>
    refine ⟨some id, b, hw, ?_⟩
    rintro i hi
    cases hi
    split at hs
    · next h =>
      cases hs
      obtain ⟨p, hp, rfl⟩ := List.mem_map.1 h.1
      exact alterRow_mem (f := fun _ => b) hp
    · cases hs

/-- **An edit keeps the tags.** The page was opened when the blog was `b`; whatever happens before it is
posted and before the post is committed, the blog has then the tags of the page that there were at the
post. -/
theorem edit_keeps_tags {ls ls₁ ls₂ : List (BlogLabel ρ)} {m : BlogStore ρ} {r : ρ} {id seq now : ℤ} {b : BlogRow}
    {blog : BlogForm} {user : Option ℤ} (hrun : exec blogStep (BlogStore.init ρ) ls = some store)
    (hb : (id, b) ∈ store.blogs) (hid : blog.id = some id) (hpage : blog.tagIds = some (b.init.getD ""))
    (hbefore : exec blogStep store ls₁ = some m) (hothers : ∀ l ∈ ls₂, l.request ≠ some r)
    (hedit : exec blogStep m (.post r blog user now :: (ls₂ ++ [.commit r seq])) = some store') :
    ∃ b', (id, b') ∈ store'.blogs ∧ b'.tags.Perm (b.tags.filter (· ∈ m.tags)) := by
  have hinv : BlogInv store := BlogInv.init.run hrun
  have hinv_m : BlogInv m := hinv.run hbefore
  obtain ⟨m₁, hpost, hedit⟩ := exec_cons_inv hedit
  obtain ⟨m₂, hrest, hlast⟩ := exec_append_inv hedit
  obtain ⟨_, hcommit, hend⟩ := exec_cons_inv hlast
  cases hend
  -- the transaction is still there at its end
  have hkept : m₂.writing r = m₁.writing r :=
    inv_of_along (I := fun s => s.writing r = m₁.writing r) (fun _ _ _ h hl hs => (writing_other hs hl).trans h) rfl
      (along_of_forall_mem hothers) hrest
  obtain ⟨work, b', hw, hmem⟩ := blogCommit_step hcommit
  rcases blogPost_step hpost with hnone | ⟨work', hwork, hw'⟩
  · rw [hkept, hnone] at hw
    cases hw
  · rw [hkept, hw'] at hw
    obtain rfl := Option.some.inj hw
    obtain ⟨type, tags, -, hwid, -⟩ := blogPost_ok hwork
    refine ⟨b', hmem id (hwid.trans hid), ?_⟩
    obtain ⟨hnodup, hsub⟩ := hinv.rowTags (id, b) hb
    have hlong : ∀ t ∈ b.tags, IsLong t := fun t ht => hinv.long t (hsub t ht)
    have hread : convertToList blog.tagIds = .ok b.tags := by
      rw [hpage]
      exact convertToList_page hlong
    obtain ⟨list, hlist, htags⟩ := listTag_ok (blogPost_tags hwork)
    rw [hread] at hlist
    cases hlist
    rw [htags]
    exact filter_table_perm hinv_m.tags hnodup

/-- The edit of `editTwice`, with a tag that cannot be removed in between. -/
def editAgain : List (BlogLabel Bool) :=
  [.post true { id := some 3, type := some (some 9), tagIds := some "1,2" } none 11, .view 3, .removeTag 2,
    .commit true 0]

/-- The page has the tags in the order of the table. -/
theorem edit_keeps_tags_twice : ∃ store b store', exec blogStep (BlogStore.init Bool) (editTwice.take 4) = some store ∧
    (3, b) ∈ store.blogs ∧ exec blogStep store editAgain = some store' ∧
    ∃ b', (3, b') ∈ store'.blogs ∧ b'.tags.Perm (b.tags.filter (· ∈ store.tags)) := by
  have heval : (exec blogStep (BlogStore.init Bool) (editTwice.take 4)).any (fun store =>
      decide (∃ p ∈ store.blogs, p.1 = 3 ∧ p.2.init.getD "" = "1,2") && (exec blogStep store editAgain).isSome) =
        true := by decide +kernel
  obtain ⟨store, hrun, heval⟩ := (Option.any_eq_true _ _).1 heval
  obtain ⟨hrow, hsome⟩ := (Bool.and_eq_true _ _).mp heval
  obtain ⟨p, hp, hid, hpage⟩ := of_decide_eq_true hrow
  obtain ⟨store', hedit⟩ := Option.isSome_iff_exists.1 hsome
  have hb : (3, p.2) ∈ store.blogs := hid ▸ hp
  refine ⟨store, p.2, store', hrun, hb, hedit, ?_⟩
  have hbefore : exec blogStep store [] = some store := rfl
  have hothers : ∀ l ∈ ([.view 3, .removeTag 2] : List (BlogLabel Bool)), l.request ≠ some true := by decide
  exact edit_keeps_tags hrun hb rfl (congrArg some hpage.symm) hbefore hothers hedit

end Edit

end StudyTech
