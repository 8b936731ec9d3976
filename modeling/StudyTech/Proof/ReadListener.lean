import StudyTech.Spec.ReadListener

/-!
# What the listener saves

`invoke` clears the list when it has saved it, `doAfterAllAnalysed` does not: what is left over at
the end of a sheet is saved there, and once more with the rows that follow. So the rows are saved
once if and only if nothing is left over before the last sheet (`readSheets_saved`).
-/

namespace StudyTech

namespace DemoDataListener

variable {α : Type} {l : DemoDataListener α}

/-- The rows of a sheet, without its end. -/
def invokes (l : DemoDataListener α) (sheet : List α) : DemoDataListener α := sheet.foldl .invoke l

def readSheet (l : DemoDataListener α) (sheet : List α) : DemoDataListener α := (l.invokes sheet).doAfterAllAnalysed

/-- All that was saved, and what is in the list. -/
def received (l : DemoDataListener α) : List α := l.saved.flatten ++ l.list

/-- The list is shorter than a batch, and what was saved is neither empty nor longer than one. -/
structure Sized (l : DemoDataListener α) : Prop where
  list : l.list.length < batchCount
  saved : ∀ list ∈ l.saved, list ≠ [] ∧ list.length ≤ batchCount

theorem saveData_list (l : DemoDataListener α) : l.saveData.list = l.list := by
  unfold saveData
  split <;> rfl

theorem saveData_flatten (l : DemoDataListener α) : l.saveData.saved.flatten = l.received := by
  unfold saveData received
  split
  · rename_i hnil
    rw [hnil, List.append_nil]
  · simp

theorem saveData_saved (h : ∀ list ∈ l.saved, list ≠ [] ∧ list.length ≤ batchCount)
    (hlist : l.list.length ≤ batchCount) : ∀ list ∈ l.saveData.saved, list ≠ [] ∧ list.length ≤ batchCount := by
  unfold saveData
  split
  · exact h
  · rename_i hne
    intro list hmem
    rcases List.mem_append.1 hmem with hmem | hmem
    · exact h list hmem
    · rw [List.mem_singleton.1 hmem]
      exact ⟨hne, hlist⟩

/-- One row: it is received behind the others. -/
theorem invoke_received (l : DemoDataListener α) (data : α) : (l.invoke data).received = l.received ++ [data] := by
  unfold invoke
  simp only
  split
  · unfold received
    rw [List.append_nil]
    exact (saveData_flatten _).trans (by simp [received])
  · simp [received]

theorem invoke_length (h : l.list.length < batchCount) (data : α) :
    (l.invoke data).list.length = (l.list.length + 1) % batchCount := by
  have hlength : (l.list ++ [data]).length = l.list.length + 1 := by simp
  unfold invoke
  simp only [hlength]
  split
  · rename_i hfull
    have heq : l.list.length + 1 = batchCount := by omega
    rw [heq, Nat.mod_self]
    rfl
  · rename_i hfull
    rw [Nat.mod_eq_of_lt (Nat.not_le.1 hfull)]
    exact hlength

theorem Sized.invoke (h : l.Sized) (data : α) : (l.invoke data).Sized := by
  have hpos : 0 < batchCount := by decide
  refine ⟨?_, ?_⟩
  · rw [invoke_length h.list]
    exact Nat.mod_lt _ hpos
  · have hlength : (l.list ++ [data]).length ≤ batchCount := by
      have hlt := h.list
      simp only [List.length_append, List.length_singleton]
      omega
    unfold DemoDataListener.invoke
    simp only
    split
    · exact saveData_saved h.saved hlength
    · exact h.saved

/-- The rows of a sheet. -/
theorem invokes_spec (h : l.Sized) (sheet : List α) :
    (l.invokes sheet).Sized ∧ (l.invokes sheet).received = l.received ++ sheet ∧
      (l.invokes sheet).list.length = (l.list.length + sheet.length) % batchCount := by
  induction sheet generalizing l with
  | nil =>
    refine ⟨h, (List.append_nil _).symm, ?_⟩
    rw [List.length_nil, Nat.add_zero, Nat.mod_eq_of_lt h.list]
    rfl
  | cons data sheet ih =>
    obtain ⟨hsized, hreceived, hlength⟩ := ih (h.invoke data)
    refine ⟨hsized, ?_, ?_⟩
    · have hrest : (l.invokes (data :: sheet)).received = (l.invoke data).received ++ sheet := hreceived
      rw [hrest, invoke_received, List.append_assoc, List.singleton_append]
    · have hrest : (l.invokes (data :: sheet)).list.length =
          ((l.invoke data).list.length + sheet.length) % batchCount := hlength
      rw [hrest, invoke_length h.list, List.length_cons, Nat.mod_add_mod]
      congr 1
      omega

/-- A sheet: its rows are saved behind all that was received before; the list stays. -/
theorem readSheet_spec (h : l.Sized) (sheet : List α) :
    (l.readSheet sheet).Sized ∧ (l.readSheet sheet).saved.flatten = l.received ++ sheet ∧
      (l.readSheet sheet).list.length = (l.list.length + sheet.length) % batchCount := by
  obtain ⟨hsized, hreceived, hlength⟩ := invokes_spec h sheet
  unfold readSheet doAfterAllAnalysed
  refine ⟨⟨?_, saveData_saved hsized.saved (Nat.le_of_lt hsized.list)⟩, ?_, ?_⟩
  · rw [saveData_list]
    exact hsized.list
  · rw [saveData_flatten, hreceived]
  · rw [saveData_list, hlength]

/-- The sheets one after the other. -/
def readAll (l : DemoDataListener α) (sheets : List (List α)) : DemoDataListener α := sheets.foldl .readSheet l

/-- At the end of the sheets the list has the rows behind the last whole batch. -/
theorem readAll_list_length (h : l.Sized) (sheets : List (List α)) :
    (l.readAll sheets).list.length = (l.list.length + sheets.flatten.length) % batchCount := by
  induction sheets generalizing l with
  | nil => exact (Nat.mod_eq_of_lt h.list).symm
  | cons sheet sheets ih =>
    obtain ⟨hsized, -, hlist⟩ := readSheet_spec h sheet
    have hrest : (l.readAll (sheet :: sheets)).list.length =
        ((l.readSheet sheet).list.length + sheets.flatten.length) % batchCount := ih hsized
    rw [hrest, hlist, List.flatten_cons, List.length_append, Nat.mod_add_mod, Nat.add_assoc]

/-- The numbers of rows that are left over at the ends of the sheets, all together. -/
def leftovers (n : ℕ) : List (List α) → ℕ
  | [] => 0
  | sheet :: sheets => (n + sheet.length) % batchCount + leftovers ((n + sheet.length) % batchCount) sheets

/-- What is left over at the end of a sheet is received twice. -/
theorem readAll_length (h : l.Sized) (sheets : List (List α)) :
    (l.readAll sheets).Sized ∧
      (l.readAll sheets).received.length =
        l.received.length + sheets.flatten.length + leftovers l.list.length sheets := by
  induction sheets generalizing l with
  | nil => exact ⟨h, rfl⟩
  | cons sheet sheets ih =>
    obtain ⟨hsized, hsaved, hlist⟩ := readSheet_spec h sheet
    obtain ⟨hall, hlength⟩ := ih hsized
    refine ⟨hall, ?_⟩
    have hfirst : (l.readSheet sheet).received.length =
        l.received.length + sheet.length + (l.list.length + sheet.length) % batchCount := by
      unfold received at hsaved ⊢
      rw [List.length_append, hsaved, hlist, List.length_append]
    have hrest : (l.readAll (sheet :: sheets)).received.length = (l.readSheet sheet).received.length +
        sheets.flatten.length + leftovers (l.readSheet sheet).list.length sheets := hlength
    rw [hrest, hfirst, hlist, leftovers, List.flatten_cons, List.length_append]
    omega

/-- Nothing is left over if every sheet is a number of whole batches. -/
theorem leftovers_eq_zero {sheets : List (List α)} :
    leftovers 0 sheets = 0 ↔ ∀ sheet ∈ sheets, batchCount ∣ sheet.length := by
  induction sheets with
  | nil => simp [leftovers]
  | cons sheet sheets ih =>
    rw [leftovers, Nat.zero_add, Nat.add_eq_zero_iff, List.forall_mem_cons]
    constructor
    · rintro ⟨hfirst, hrest⟩
      rw [hfirst] at hrest
      exact ⟨Nat.dvd_of_mod_eq_zero hfirst, ih.1 hrest⟩
    · rintro ⟨hfirst, hrest⟩
      have hzero := Nat.mod_eq_zero_of_dvd hfirst
      rw [hzero]
      exact ⟨rfl, ih.2 hrest⟩

/-- Sheets of whole batches: all rows are saved, in order, and the list is empty. -/
theorem readAll_whole (h : l.Sized) (hlist : l.list = []) {sheets : List (List α)}
    (hsheets : ∀ sheet ∈ sheets, batchCount ∣ sheet.length) :
    (l.readAll sheets).list = [] ∧ (l.readAll sheets).received = l.received ++ sheets.flatten := by
  induction sheets generalizing l with
  | nil => exact ⟨hlist, (List.append_nil _).symm⟩
  | cons sheet sheets ih =>
    obtain ⟨hsized, hsaved, hlength⟩ := readSheet_spec h sheet
    have hnil : (l.readSheet sheet).list = [] := by
      rw [hlist, List.length_nil, Nat.zero_add, Nat.mod_eq_zero_of_dvd (hsheets sheet List.mem_cons_self)] at hlength
      exact List.length_eq_zero_iff.1 hlength
    obtain ⟨hrest, hreceived⟩ := ih hsized hnil fun sheet hmem => hsheets sheet (List.mem_cons_of_mem _ hmem)
    refine ⟨hrest, ?_⟩
    have hfirst : (l.readSheet sheet).received = l.received ++ sheet := by
      rw [received, hnil, List.append_nil, hsaved]
    have hall : (l.readAll (sheet :: sheets)).received = (l.readSheet sheet).received ++ sheets.flatten := hreceived
    rw [hall, hfirst, List.flatten_cons, List.append_assoc]

/-- The rows before, if all of them were saved, and those of the sheets are saved. -/
theorem readAll_saves (h : l.Sized) {rows : List α} (hrows : rows.Sublist l.saved.flatten) (sheets : List (List α)) :
    (rows ++ sheets.flatten).Sublist (l.readAll sheets).saved.flatten := by
  induction sheets generalizing l rows with
  | nil =>
    rw [List.flatten_nil, List.append_nil]
    exact hrows
  | cons sheet sheets ih =>
    obtain ⟨hsized, hsaved, -⟩ := readSheet_spec h sheet
    have hfirst : (rows ++ sheet).Sublist (l.readSheet sheet).saved.flatten := by
      rw [hsaved]
      exact (hrows.trans (List.sublist_append_left _ _)).append_right sheet
    have hrest := ih hsized hfirst
    rw [List.append_assoc] at hrest
    exact hrest

end DemoDataListener

section Sheets

open DemoDataListener

variable {α : Type}

theorem sized_start : ({} : DemoDataListener α).Sized := ⟨Nat.zero_lt_succ 4, fun _ h => absurd h List.not_mem_nil⟩

/-- The events of a sheet are its rows and its end. -/
theorem readSheets_eq (sheets : List (List α)) : readSheets sheets = ({} : DemoDataListener α).readAll sheets := by
  have hsheet : ∀ (l : DemoDataListener α) sheet,
      (sheet.map .invoke ++ [.doAfterAllAnalysed]).foldl .step l = l.readSheet sheet := by
    intro l sheet
    rw [List.foldl_append, List.foldl_map]
    rfl
  unfold readSheets eventsOf readAll
  rw [List.foldl_flatMap]
  simp only [hsheet]

/-- **No row is lost**, whatever the sheets are. -/
theorem readSheets_saves (sheets : List (List α)) : sheets.flatten.Sublist (readSheets sheets).saved.flatten := by
  have hnone : ([] : List α).Sublist ({} : DemoDataListener α).saved.flatten := List.Sublist.slnil
  have hall := readAll_saves sized_start hnone sheets
  rw [List.nil_append, ← readSheets_eq] at hall
  exact hall

/-- The rows are saved once and in order if and only if all sheets but the last are whole batches. -/
theorem saved_flatten_iff (sheets : List (List α)) :
    (readSheets sheets).saved.flatten = sheets.flatten ↔ ∀ sheet ∈ sheets.dropLast, batchCount ∣ sheet.length := by
  rw [readSheets_eq]
  rcases List.eq_nil_or_concat sheets with rfl | ⟨front, last, rfl⟩
  · exact iff_of_true rfl fun sheet h => absurd h List.not_mem_nil
  · obtain ⟨hsized, hlength⟩ := readAll_length sized_start front
    obtain ⟨-, hsaved, -⟩ := readSheet_spec hsized last
    have hall : (({} : DemoDataListener α).readAll (front.concat last)).saved.flatten =
        (({} : DemoDataListener α).readAll front).received ++ last := by
      rw [List.concat_eq_append, readAll, List.foldl_append]
      exact hsaved
    have hflatten : (front.concat last).flatten = front.flatten ++ last := by simp
    have hdrop : (front.concat last).dropLast = front := by simp
    rw [hall, hflatten, hdrop]
    constructor
    · intro h
      -- what is left over makes the rows more
      have hfront := congrArg List.length (List.append_cancel_right h)
      rw [hlength] at hfront
      refine leftovers_eq_zero.1 ?_
      have hstart : ({} : DemoDataListener α).received.length = 0 := rfl
      have hlist : ({} : DemoDataListener α).list.length = 0 := rfl
      rw [hstart, hlist] at hfront
      omega
    · intro h
      obtain ⟨-, hreceived⟩ := readAll_whole sized_start rfl h
      rw [hreceived]
      rfl

/-- The list is empty at the end if and only if the rows are whole batches. -/
theorem list_eq_nil_iff (sheets : List (List α)) :
    (readSheets sheets).list = [] ↔ batchCount ∣ sheets.flatten.length := by
  have hzero := readAll_list_length sized_start sheets
  rw [← readSheets_eq] at hzero
  have hstart : ({} : DemoDataListener α).list.length = 0 := rfl
  rw [hstart, Nat.zero_add] at hzero
  rw [← List.length_eq_zero_iff, hzero, Nat.dvd_iff_mod_eq_zero]

/-- **What the listener saves.** No list that it saves is empty or longer than a batch. It saves all
rows once and in order if and only if every sheet but the last is a number of whole batches; its
list is empty as well after the last sheet if and only if that goes for every sheet. -/
theorem readSheets_saved (sheets : List (List α)) :
    (∀ list ∈ (readSheets sheets).saved, list ≠ [] ∧ list.length ≤ batchCount) ∧
    ((readSheets sheets).saved.flatten = sheets.flatten ↔ ∀ sheet ∈ sheets.dropLast, batchCount ∣ sheet.length) ∧
    ((readSheets sheets).saved.flatten = sheets.flatten ∧ (readSheets sheets).list = [] ↔
      ∀ sheet ∈ sheets, batchCount ∣ sheet.length) := by
  refine ⟨?_, saved_flatten_iff sheets, ?_⟩
  · rw [readSheets_eq]
    exact (readAll_length sized_start sheets).1.saved
  · rw [saved_flatten_iff, list_eq_nil_iff]
    rcases List.eq_nil_or_concat sheets with rfl | ⟨front, last, rfl⟩
    · simp
    · have hdrop : (front.concat last).dropLast = front := by simp
      have hlength : (front.concat last).flatten.length = front.flatten.length + last.length := by simp
      rw [hdrop, hlength]
      simp only [List.concat_eq_append, List.forall_mem_append, List.forall_mem_singleton]
      refine and_congr_right fun hfront => ?_
      have hdvd : batchCount ∣ front.flatten.length := by
        rw [← list_eq_nil_iff, readSheets_eq]
        exact (readAll_whole sized_start rfl hfront).1
      exact (Nat.dvd_add_iff_right hdvd).symm

/-- **The row of the first sheet is saved again with that of the second.** -/
theorem readSheets_twice : (readSheets [[1], [2]]).saved = [[1], [1, 2]] ∧ [[1], [2]].flatten = [1, 2] ∧
    (readSheets [[1], [2]]).list = [1, 2] := by decide

end Sheets

end StudyTech
