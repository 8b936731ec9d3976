import Mathlib.Data.Fintype.Basic
import StudyTech.Lib.Run
import StudyTech.Spec.AdminNames

/-!
# The names of types and tags are unique, if no two requests for a name overlap

The check and the save of a request are two transactions, and the table has no unique key: two requests for
one name that are both checked before one of them is saved give two rows with it. If no name is checked
while another request with it is between its check and its save, no two rows ever have the same name, and
`findByName`, which throws where there are two, never throws (`names_unique`). The pending names behave as
if they were in the table: the rows and the pending requests together have each name at most once.
-/

namespace StudyTech

open Lib

variable {ρ : Type} {κ : Type} {collate : String → κ}

/-- Rows with the same name are the same row. -/
def NamesUnique (collate : String → κ) (rows : List (ℤ × Option String)) : Prop :=
  ∀ p ∈ rows, ∀ q ∈ rows, p.2.map collate = q.2.map collate → p.1 = q.1

theorem NamesUnique.filter {rows : List (ℤ × Option String)} (h : NamesUnique collate rows)
    (keep : ℤ × Option String → Bool) : NamesUnique collate (rows.filter keep) :=
  fun p hp q hq => h p (List.mem_of_mem_filter hp) q (List.mem_of_mem_filter hq)

/-- A row gets a name that no row has. -/
theorem NamesUnique.alter {rows : List (ℤ × Option String)} (h : NamesUnique collate rows) (id : ℤ)
    {name : Option String} (hname : ∀ p ∈ rows, p.2.map collate ≠ name.map collate) :
    NamesUnique collate (alterRow rows id fun _ => name) := by
  intro p hp q hq heq
  rcases mem_alterRow hp with ⟨hp, -⟩ | ⟨old, -, rfl⟩
  · rcases mem_alterRow hq with ⟨hq, -⟩ | ⟨old', -, rfl⟩
    · exact h p hp q hq heq
    · exact absurd heq (hname p hp)
  · rcases mem_alterRow hq with ⟨hq, -⟩ | ⟨old', -, rfl⟩
    · exact absurd heq.symm (hname q hq)
    · rfl

theorem NamesUnique.append {rows : List (ℤ × Option String)} (h : NamesUnique collate rows) (id : ℤ)
    {name : Option String} (hname : ∀ p ∈ rows, p.2.map collate ≠ name.map collate) :
    NamesUnique collate (rows ++ [(id, name)]) := by
  intro p hp q hq heq
  rcases List.mem_append.1 hp with hp | hp
  · rcases List.mem_append.1 hq with hq | hq
    · exact h p hp q hq heq
    · obtain rfl := List.mem_singleton.1 hq
      exact absurd heq (hname p hp)
  · obtain rfl := List.mem_singleton.1 hp
    rcases List.mem_append.1 hq with hq | hq
    · exact absurd heq.symm (hname q hq)
    · obtain rfl := List.mem_singleton.1 hq
      rfl

section FindByName

variable [DecidableEq κ] {rows : List (ℤ × Option String)}

theorem findByName_none {name : Option String} (h : findByName collate rows name = .ok none) :
    ∀ p ∈ rows, p.2.map collate ≠ name.map collate := by
  unfold findByName at h
  split at h
  · next hnil =>
    intro p hp hname
    exact List.filter_eq_nil_iff.1 hnil p hp (decide_eq_true hname)
  · cases h
  · cases h

/-- Where names are unique, `findByName` does not throw. -/
theorem findByName_ok (hids : (rows.map Prod.fst).Nodup) (h : NamesUnique collate rows) (name : Option String) :
    ∃ found, findByName collate rows name = .ok found := by
  unfold findByName
  split
  · exact ⟨none, rfl⟩
  · next p _ => exact ⟨some p, rfl⟩
  · next p q rest hfilter =>
    have hfound : ∀ r ∈ p :: q :: rest, r ∈ rows ∧ r.2.map collate = name.map collate := by
      intro r hr
      rw [← hfilter] at hr
      obtain ⟨hr, hname⟩ := List.mem_filter.1 hr
      exact ⟨hr, of_decide_eq_true hname⟩
    obtain ⟨hp, hpname⟩ := hfound p List.mem_cons_self
    obtain ⟨hq, hqname⟩ := hfound q (List.mem_cons_of_mem _ List.mem_cons_self)
    have hsame : p.1 = q.1 := h p hp q hq (hpname.trans hqname.symm)
    have hnodup := nodup_ids_filter hids fun p => decide (p.2.map collate = name.map collate)
    rw [hfilter, List.map_cons, List.map_cons, hsame] at hnodup
    exact absurd List.mem_cons_self (List.nodup_cons.1 hnodup).1

end FindByName

variable [DecidableEq ρ] [DecidableEq κ] {blankAllowed : Bool} {table table' : NameTable ρ} {l : NameLabel ρ}

/-- No other request is between the check and the save of the name. -/
def NameAlone (collate : String → κ) (table : NameTable ρ) : NameLabel ρ → Prop
  | .check _ _ form => ∀ r, (table.saving r).map (fun work => work.2.name.map collate) ≠ some (form.name.map collate)
  | _ => True

instance [Fintype ρ] (table : NameTable ρ) : DecidablePred (NameAlone collate table)
  | .check _ _ form => inferInstanceAs (Decidable (∀ r, (table.saving r).map (fun work =>
      work.2.name.map collate) ≠ some (form.name.map collate)))
  | .save _ _ => isTrue trivial
  | .fail _ => isTrue trivial
  | .delete _ => isTrue trivial

/-- The rows and the pending requests together have each name at most once. -/
structure NamesInv (collate : String → κ) (blankAllowed : Bool) (table : NameTable ρ) : Prop where
  ids : (table.rows.map Prod.fst).Nodup
  usedIds : ∀ p ∈ table.rows, p.1 ∈ table.usedIds
  unique : NamesUnique collate table.rows
  free : ∀ r work, table.saving r = some work → ∀ p ∈ table.rows, p.2.map collate ≠ work.2.name.map collate
  once : ∀ r r' work work', table.saving r = some work → table.saving r' = some work' →
    work.2.name.map collate = work'.2.name.map collate → r = r'
  rowNames : blankAllowed = false → ∀ p ∈ table.rows, notBlank p.2 = true
  savingNames : blankAllowed = false → ∀ r work, table.saving r = some work → notBlank work.2.name = true

omit [DecidableEq ρ] [DecidableEq κ] in
/-- What a save does to the rows. -/
theorem saveOrUpdate_ok {request : NameRequest} {form : NameForm} {seq : ℤ}
    (h : table.saveOrUpdate request form seq = .ok table') :
    (∃ id, table' = { table with rows := alterRow table.rows id fun _ => form.name }) ∨
      table' = { table with rows := table.rows ++ [(seq, form.name)], usedIds := seq :: table.usedIds } := by
  cases request with
  | post =>
    cases h
    unfold NameTable.save
    split
    · next id _ => exact .inl ⟨id, rfl⟩
    · exact .inr rfl
  | editPost id =>
    simp only [NameTable.saveOrUpdate, NameTable.update] at h
    split at h
    · split at h
      · cases h
        exact .inl ⟨id, rfl⟩
      · cases h
    · cases h

omit [DecidableEq ρ] in
theorem checkName_ok {form : NameForm} (h : checkName collate blankAllowed table.rows form = .ok true) :
    (∀ p ∈ table.rows, p.2.map collate ≠ form.name.map collate) ∧
      (blankAllowed = false → notBlank form.name = true) := by
  unfold checkName at h
  cases hfind : findByName collate table.rows form.name with
  | error e =>
    rw [hfind] at h
    cases h
  | ok found =>
    rw [hfind] at h
    obtain ⟨hnone, hblank⟩ := (Bool.and_eq_true _ _).mp (Except.ok.inj h)
    cases found with
    | some p => cases hnone
    | none =>
      refine ⟨findByName_none hfind, fun hallowed => ?_⟩
      rwa [hallowed, Bool.false_or] at hblank

/-- What a step can do. -/
inductive NameChange (collate : String → κ) (blankAllowed : Bool) (table : NameTable ρ) :
    NameLabel ρ → NameTable ρ → Prop
  | refused (r : ρ) (request : NameRequest) (form : NameForm) :
    NameChange collate blankAllowed table (.check r request form) table
  | checked {r : ρ} {request : NameRequest} {form : NameForm}
    (hfree : ∀ p ∈ table.rows, p.2.map collate ≠ form.name.map collate)
    (hblank : blankAllowed = false → notBlank form.name = true) :
    NameChange collate blankAllowed table (.check r request form)
      { table with saving := Function.update table.saving r (some (request, form)) }
  | renamed {r : ρ} {work : NameRequest × NameForm} {seq id : ℤ} (hwork : table.saving r = some work) :
    NameChange collate blankAllowed table (.save r seq) { table with
      rows := alterRow table.rows id fun _ => work.2.name
      saving := Function.update table.saving r none }
  | inserted {r : ρ} {work : NameRequest × NameForm} {seq : ℤ} (hwork : table.saving r = some work)
    (hseq : seq ∉ table.usedIds) : NameChange collate blankAllowed table (.save r seq) { table with
      rows := table.rows ++ [(seq, work.2.name)]
      usedIds := seq :: table.usedIds
      saving := Function.update table.saving r none }
  | ended (l : NameLabel ρ) (r : ρ) :
    NameChange collate blankAllowed table l { table with saving := Function.update table.saving r none }
  | deleted (id : ℤ) :
    NameChange collate blankAllowed table (.delete id) { table with rows := table.rows.filter fun p => p.1 ≠ id }

theorem nameStep_cases (hs : nameStep collate blankAllowed table l = some table') :
    NameChange collate blankAllowed table l table' := by
  cases l with
  | check r request form =>
    simp only [nameStep] at hs
    split at hs
    · split at hs
      · next hcheck =>
        cases hs
        obtain ⟨hfree, hblank⟩ := checkName_ok hcheck
        exact .checked hfree hblank
      · cases hs
        exact .refused r request form
      · cases hs
        exact .refused r request form
    · cases hs
  | save r seq =>
    simp only [nameStep] at hs
    split at hs
    · cases hs
    · next request form hwork =>
      split at hs
      · next hseq =>
        split at hs
        · next saved hsave =>
          cases hs
          rcases saveOrUpdate_ok hsave with ⟨id, rfl⟩ | rfl
          · exact .renamed hwork
          · exact .inserted hwork hseq
        · cases hs
          exact .ended _ r
      · cases hs
  | fail r =>
    cases hs
    exact .ended _ r
  | delete id =>
    cases hs
    exact .deleted id

omit [DecidableEq κ] in
/-- A pending request that is left was pending. -/
theorem saving_of_update {saving : ρ → Option (NameRequest × NameForm)} {r r' : ρ} {work : NameRequest × NameForm}
    (h : Function.update saving r none r' = some work) : saving r' = some work ∧ r' ≠ r := by
  by_cases hr : r' = r
  · rw [hr, Function.update_self] at h
    cases h
  · rw [Function.update_of_ne hr] at h
    exact ⟨h, hr⟩

omit [DecidableEq κ] in
/-- A request has been checked: its name is in no row, and no other request is about to save it. -/
theorem NamesInv.checked (h : NamesInv collate blankAllowed table) {r : ρ} {request : NameRequest} {form : NameForm}
    (halone : NameAlone collate table (.check r request form))
    (hfree : ∀ p ∈ table.rows, p.2.map collate ≠ form.name.map collate)
    (hblank : blankAllowed = false → notBlank form.name = true) : NamesInv collate blankAllowed
      { table with saving := Function.update table.saving r (some (request, form)) } := by
  have hpending : ∀ {r' work}, Function.update table.saving r (some (request, form)) r' = some work →
      (r' = r ∧ work = (request, form)) ∨ table.saving r' = some work := by
    intro r' work hwork
    by_cases hr : r' = r
    · rw [hr, Function.update_self] at hwork
      exact .inl ⟨hr, (Option.some.inj hwork).symm⟩
    · rw [Function.update_of_ne hr] at hwork
      exact .inr hwork
  have hother : ∀ {r' work}, table.saving r' = some work →
      work.2.name.map collate ≠ form.name.map collate := by
    intro r' work hwork heq
    refine halone r' ?_
    rw [hwork, Option.map_some, heq]
  refine { h with free := ?_, once := ?_, savingNames := ?_ }
  · intro r' work hwork p hp
    rcases hpending hwork with ⟨-, rfl⟩ | hwork
    · exact hfree p hp
    · exact h.free r' work hwork p hp
  · intro r₁ r₂ work₁ work₂ h₁ h₂ heq
    rcases hpending h₁ with ⟨hr₁, hwork₁⟩ | hbefore₁
    · rcases hpending h₂ with ⟨hr₂, -⟩ | hbefore₂
      · exact hr₁.trans hr₂.symm
      · rw [hwork₁] at heq
        exact absurd heq.symm (hother hbefore₂)
    · rcases hpending h₂ with ⟨-, hwork₂⟩ | hbefore₂
      · rw [hwork₂] at heq
        exact absurd heq (hother hbefore₁)
      · exact h.once r₁ r₂ work₁ work₂ hbefore₁ hbefore₂ heq
  · intro hallowed r' work hwork
    rcases hpending hwork with ⟨-, rfl⟩ | hwork
    · exact hblank hallowed
    · exact h.savingNames hallowed r' work hwork

omit [DecidableEq κ] in
/-- A row has got the name of a pending request. -/
theorem NamesInv.renamed (h : NamesInv collate blankAllowed table) {r : ρ} {work : NameRequest × NameForm} (id : ℤ)
    (hwork : table.saving r = some work) : NamesInv collate blankAllowed { table with
      rows := alterRow table.rows id fun _ => work.2.name
      saving := Function.update table.saving r none } := by
  refine ⟨?_, ?_, h.unique.alter id (h.free r work hwork), ?_, ?_, ?_, ?_⟩
  · rw [alterRow_ids]
    exact h.ids
  · intro p hp
    rcases mem_alterRow (f := fun _ => work.2.name) hp with ⟨hp, -⟩ | ⟨old, hold, rfl⟩
    · exact h.usedIds p hp
    · exact h.usedIds (id, old) hold
  · intro r' work' hwork' p hp heq
    obtain ⟨hwork', hr⟩ := saving_of_update hwork'
    rcases mem_alterRow (f := fun _ => work.2.name) hp with ⟨hp, -⟩ | ⟨old, -, rfl⟩
    · exact h.free r' work' hwork' p hp heq
    · exact hr (h.once r r' work work' hwork hwork' heq).symm
  · intro r₁ r₂ work₁ work₂ h₁ h₂ heq
    exact h.once r₁ r₂ work₁ work₂ (saving_of_update h₁).1 (saving_of_update h₂).1 heq
  · intro hallowed p hp
    rcases mem_alterRow (f := fun _ => work.2.name) hp with ⟨hp, -⟩ | ⟨old, -, rfl⟩
    · exact h.rowNames hallowed p hp
    · exact h.savingNames hallowed r work hwork
  · exact fun hallowed r' work' hwork' => h.savingNames hallowed r' work' (saving_of_update hwork').1

omit [DecidableEq κ] in
/-- The row of a pending request has been added, under an id of the sequence. -/
theorem NamesInv.inserted (h : NamesInv collate blankAllowed table) {r : ρ} {work : NameRequest × NameForm} {seq : ℤ}
    (hwork : table.saving r = some work) (hseq : seq ∉ table.usedIds) : NamesInv collate blankAllowed { table with
      rows := table.rows ++ [(seq, work.2.name)]
      usedIds := seq :: table.usedIds
      saving := Function.update table.saving r none } := by
  refine ⟨?_, ?_, h.unique.append seq (h.free r work hwork), ?_, ?_, ?_, ?_⟩
  · refine nodup_ids_append h.ids fun hmem => hseq ?_
    obtain ⟨p, hp, rfl⟩ := List.mem_map.1 hmem
    exact h.usedIds p hp
  · intro p hp
    rcases List.mem_append.1 hp with hp | hp
    · exact List.mem_cons_of_mem _ (h.usedIds p hp)
    · rw [List.mem_singleton.1 hp]
      exact List.mem_cons_self
  · intro r' work' hwork' p hp heq
    obtain ⟨hwork', hr⟩ := saving_of_update hwork'
    rcases List.mem_append.1 hp with hp | hp
    · exact h.free r' work' hwork' p hp heq
    · rw [List.mem_singleton.1 hp] at heq
      exact hr (h.once r r' work work' hwork hwork' heq).symm
  · intro r₁ r₂ work₁ work₂ h₁ h₂ heq
    exact h.once r₁ r₂ work₁ work₂ (saving_of_update h₁).1 (saving_of_update h₂).1 heq
  · intro hallowed p hp
    rcases List.mem_append.1 hp with hp | hp
    · exact h.rowNames hallowed p hp
    · rw [List.mem_singleton.1 hp]
      exact h.savingNames hallowed r work hwork
  · exact fun hallowed r' work' hwork' => h.savingNames hallowed r' work' (saving_of_update hwork').1

omit [DecidableEq κ] in
/-- A request has ended without a save. -/
theorem NamesInv.ended (h : NamesInv collate blankAllowed table) (r : ρ) :
    NamesInv collate blankAllowed { table with saving := Function.update table.saving r none } :=
  { h with
    free := fun r' work' hwork' => h.free r' work' (saving_of_update hwork').1
    once := fun r₁ r₂ work₁ work₂ h₁ h₂ =>
      h.once r₁ r₂ work₁ work₂ (saving_of_update h₁).1 (saving_of_update h₂).1
    savingNames := fun hallowed r' work' hwork' => h.savingNames hallowed r' work' (saving_of_update hwork').1 }

omit [DecidableEq ρ] [DecidableEq κ] in
theorem NamesInv.deleted (h : NamesInv collate blankAllowed table) (id : ℤ) :
    NamesInv collate blankAllowed { table with rows := table.rows.filter fun p => p.1 ≠ id } :=
  { h with
    ids := nodup_ids_filter h.ids _
    usedIds := fun p hp => h.usedIds p (List.mem_of_mem_filter hp)
    unique := h.unique.filter _
    free := fun r work hwork p hp => h.free r work hwork p (List.mem_of_mem_filter hp)
    rowNames := fun hallowed p hp => h.rowNames hallowed p (List.mem_of_mem_filter hp) }

/-- **One step.** -/
theorem namesInv_step (h : NamesInv collate blankAllowed table) (halone : NameAlone collate table l)
    (hs : nameStep collate blankAllowed table l = some table') : NamesInv collate blankAllowed table' := by
  cases nameStep_cases hs with
  | refused => exact h
  | checked hfree hblank => exact h.checked halone hfree hblank
  | renamed hwork => exact h.renamed _ hwork
  | inserted hwork hseq => exact h.inserted hwork hseq
  | ended l r => exact h.ended r
  | deleted id => exact h.deleted id

/-- **Names are unique.** From a table with unique names that no request is about to save to, in every run in
which no name is checked while another request with it is between its check and its save: two rows with the
same name are the same row, `findByName` throws for no name, and no type has a blank name. -/
theorem names_unique {ls : List (NameLabel ρ)} (hids : (table.rows.map Prod.fst).Nodup)
    (hused : ∀ p ∈ table.rows, p.1 ∈ table.usedIds) (hunique : NamesUnique collate table.rows)
    (hblank : blankAllowed = false → ∀ p ∈ table.rows, notBlank p.2 = true) (hidle : ∀ r, table.saving r = none)
    (halone : Along (nameStep collate blankAllowed) (NameAlone collate) table ls)
    (hrun : exec (nameStep collate blankAllowed) table ls = some table') :
    NamesUnique collate table'.rows ∧ (∀ name, ∃ found, findByName collate table'.rows name = .ok found) ∧
      (blankAllowed = false → ∀ p ∈ table'.rows, notBlank p.2 = true) := by
  have hinit : NamesInv collate blankAllowed table := by
    refine ⟨hids, hused, hunique, ?_, ?_, hblank, ?_⟩
    · exact fun r work hwork => nomatch (hidle r).symm.trans hwork
    · exact fun r r' work work' hwork => nomatch (hidle r).symm.trans hwork
    · exact fun _ r work hwork => nomatch (hidle r).symm.trans hwork
  have hinv : NamesInv collate blankAllowed table' :=
    inv_of_along (fun _ _ _ h hok hs => namesInv_step h hok hs) hinit halone hrun
  exact ⟨hinv.unique, findByName_ok hinv.ids hinv.unique, hinv.rowNames⟩

/-- How a database that ignores the case compares names. -/
def ignoreCase (name : String) : List Char := name.toList.map Char.toLower

/-- A type is added and renamed, and its first name is added again. -/
def typesTwice : List (NameLabel Bool) :=
  [.check false .post { name := some "Java" }, .save false 2, .check true .post { name := some "java" },
    .check true (.editPost 2) { id := some 2, name := some "Go" }, .save true 3,
    .check false .post { name := some " " }, .check true .post { name := some "Java" }, .save true 4]

/-- After the start of the application on an empty database. -/
def typesAtStart : NameTable Bool := ⟨[(1, some "技术")], [1], fun _ => none⟩

/-- The names of the run are the first one of the table, "Go" and "Java". -/
theorem names_unique_twice : ∃ table, exec (typeStep ignoreCase) typesAtStart typesTwice = some table ∧
    table.rows = [(1, some "技术"), (2, some "Go"), (4, some "Java")] ∧ NamesUnique ignoreCase table.rows := by
  have heval : (exec (typeStep ignoreCase) typesAtStart typesTwice).any (fun table =>
      decide (table.rows = [(1, some "技术"), (2, some "Go"), (4, some "Java")])) = true := by decide +kernel
  obtain ⟨table, hrun, hrows⟩ := (Option.any_eq_true _ _).1 heval
  have halone : Along (typeStep ignoreCase) (NameAlone ignoreCase) typesAtStart typesTwice := by decide +kernel
  have hunique : NamesUnique ignoreCase typesAtStart.rows := by
    intro p hp q hq _
    rw [List.mem_singleton.1 hp, List.mem_singleton.1 hq]
  have hused : ∀ p ∈ typesAtStart.rows, p.1 ∈ typesAtStart.usedIds := by decide
  have hblank : false = false → ∀ p ∈ typesAtStart.rows, notBlank p.2 = true := fun _ => by decide +kernel
  exact ⟨table, hrun, of_decide_eq_true hrows,
    (names_unique (by decide) hused hunique hblank (fun _ => rfl) halone hrun).1⟩

/-- Two requests for one name that overlap give two rows, and then the name cannot be looked for any more. -/
example : (exec (typeStep ignoreCase) typesAtStart [.check false .post { name := some "Java" },
    .check true .post { name := some "Java" }, .save false 2, .save true 3]).any (fun table =>
      decide (findByName ignoreCase table.rows (some "Java") = .error .incorrectResultSize)) = true := by decide +kernel

end StudyTech
