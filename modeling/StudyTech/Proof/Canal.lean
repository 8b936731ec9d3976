import StudyTech.Lib.Split
import StudyTech.Spec.Canal

/-!
# What an acknowledged Canal batch went through

A batch is acknowledged whatever `printEntry` did with it. An entry that is not parsed ends
`printEntry`, so that the rest of its batch is acknowledged unprinted (`rest_dropped`).
An acknowledged batch was fully printed if and only if all its entries are parsed
(`acked_printed_iff`).
-/

namespace StudyTech

open CanalEntry

/-- The entries of a batch that hold row changes. -/
def CanalEntry.Message.changes (message : Message) : List Entry := message.entries.filter (!·.isMarker)

/-- The action prints or logs something. -/
def CanalAction.isOutput : CanalAction → Bool
  | .operation _ _ => true
  | .before => true
  | .after => true
  | .println _ => true
  | .parseError _ => true
  | _ => false

namespace CanalClient

variable (C : CanalClient)

/-- A column is shown on one line of its own: its name, its types, its value and whether it was
updated. -/
def ColumnShown (column : Column) (shown : List CanalAction) : Prop :=
  shown = [.println (String.join [column.name, "[", column.mysqlType, " => ", C.jdbcType column.sqlType, "]",
    column.value, " => ", if column.updated then "true" else "false"])]

/-- A row is shown by all its columns in order: as they were if it is deleted, as they are if it
is inserted, and for every other operation both, each under its heading. -/
inductive RowShown : EventType → RowData → List CanalAction → Prop
  | delete {row : RowData} {shown : List CanalAction} (h : Lib.Pieces C.ColumnShown row.beforeColumns shown) :
    RowShown .delete row shown
  | insert {row : RowData} {shown : List CanalAction} (h : Lib.Pieces C.ColumnShown row.afterColumns shown) :
    RowShown .insert row shown
  | other {row : RowData} {name : String} {old new : List CanalAction}
    (hold : Lib.Pieces C.ColumnShown row.beforeColumns old) (hnew : Lib.Pieces C.ColumnShown row.afterColumns new) :
    RowShown (.other name) row ([.before] ++ old ++ [.after] ++ new)

/-- An entry is parsed, and its operation and then all its rows in order are shown. -/
def ChangeShown (entry : Entry) (shown : List CanalAction) : Prop :=
  ∃ rowChange rows, C.parseFrom entry.storeValue = .ok rowChange ∧
    Lib.Pieces (C.RowShown rowChange.eventType) rowChange.rowDatas rows ∧
    shown = .operation entry.header rowChange.eventType :: rows

/-- The actions show all entries of the batch that hold row changes, in order and each once. -/
def Printed (message : Message) (actions : List CanalAction) : Prop :=
  Lib.Pieces C.ChangeShown message.changes actions

/-- The entries of the batch can be parsed; the id that stands for no batch comes with none. -/
structure WellFormed (message : Message) : Prop where
  parses : ∀ entry ∈ message.changes, ∃ rowChange, C.parseFrom entry.storeValue = .ok rowChange
  noBatch : message.id = -1 → message.changes = []

variable {C}

theorem columnsShown_iff (columns : List Column) (shown : List CanalAction) :
    Lib.Pieces C.ColumnShown columns shown ↔ shown = C.printColumn columns := by
  rw [printColumn, List.map_eq_flatMap]
  refine Lib.pieces_iff_flatMap (fun column piece => ?_) columns shown
  have hline : C.columnLine column = String.join [column.name, "[", column.mysqlType, " => ",
      C.jdbcType column.sqlType, "]", column.value, " => ", if column.updated then "true" else "false"] := by
    have hmark : toString column.updated = if column.updated then "true" else "false" := by
      cases column.updated <;> rfl
    simp [columnLine, String.join, hmark]
  rw [ColumnShown, hline]

theorem rowShown_iff (eventType : EventType) (rowData : RowData) (shown : List CanalAction) :
    C.RowShown eventType rowData shown ↔ shown = C.printRow eventType rowData := by
  constructor
  · intro h
    cases h with
    | delete h => exact (columnsShown_iff _ _).1 h
    | insert h => exact (columnsShown_iff _ _).1 h
    | other hold hnew =>
      rw [(columnsShown_iff _ _).1 hold, (columnsShown_iff _ _).1 hnew]
      simp [printRow]
  · rintro rfl
    cases eventType with
    | delete => exact .delete ((columnsShown_iff _ _).2 rfl)
    | insert => exact .insert ((columnsShown_iff _ _).2 rfl)
    | other name =>
      have h : C.RowShown (.other name) rowData
          ([.before] ++ C.printColumn rowData.beforeColumns ++ [.after] ++ C.printColumn rowData.afterColumns) :=
        .other ((columnsShown_iff _ _).2 rfl) ((columnsShown_iff _ _).2 rfl)
      simpa [printRow] using h

/-- What is printed for an entry that is parsed shows it. -/
theorem changeShown_printRowChange {entry : Entry} {rowChange : RowChange}
    (h : C.parseFrom entry.storeValue = .ok rowChange) : C.ChangeShown entry (C.printRowChange entry rowChange) :=
  ⟨rowChange, _, h, (Lib.pieces_iff_flatMap (rowShown_iff _) _ _).2 rfl, rfl⟩

/-- Entries that can all be parsed are printed in order. -/
theorem printEntry_shown {entryList : List Entry}
    (h : ∀ entry ∈ entryList.filter (!·.isMarker), ∃ rowChange, C.parseFrom entry.storeValue = .ok rowChange) :
    Lib.Pieces C.ChangeShown (entryList.filter (!·.isMarker)) (C.printEntry entryList) := by
  induction entryList with
  | nil => exact .nil
  | cons entry entryList ih =>
    unfold printEntry
    by_cases hmarker : entry.isMarker = true
    · rw [if_pos hmarker]
      rw [List.filter_cons_of_neg (by simp [hmarker])] at h ⊢
      exact ih h
    · rw [if_neg hmarker]
      rw [List.filter_cons_of_pos (by simp [hmarker])] at h ⊢
      obtain ⟨rowChange, hparse⟩ := h entry List.mem_cons_self
      rw [hparse]
      exact .cons (changeShown_printRowChange hparse) (ih fun e he => h e (List.mem_cons_of_mem _ he))

/-- Entries that are all shown were all parsed. -/
theorem parses_of_printed {message : Message} {actions : List CanalAction} (h : C.Printed message actions) :
    ∀ entry ∈ message.changes, ∃ rowChange, C.parseFrom entry.storeValue = .ok rowChange := by
  intro entry hentry
  obtain ⟨_, rowChange, _, hparse, _⟩ := h.exists_piece hentry
  exact ⟨rowChange, hparse⟩

/-- Printing says at least which operation it is. -/
theorem changes_eq_nil_of_printed {message : Message} (h : C.Printed message []) : message.changes = [] := by
  unfold Printed at h
  generalize hactions : ([] : List CanalAction) = actions at h
  cases hchanges : message.changes with
  | nil => rfl
  | cons entry entries =>
    rw [hchanges] at h
    cases h with
    | cons hpiece _ =>
      obtain ⟨_, _, _, _, rfl⟩ := hpiece
      cases hactions

/-- Nothing is printed for a batch without row changes. -/
theorem printed_nil {message : Message} (h : message.changes = []) : C.Printed message [] := by
  unfold Printed
  rw [h]
  exact .nil

/-- The actions of `printEntry` are output. -/
theorem isOutput_printEntry {entryList : List Entry} {action : CanalAction} (h : action ∈ C.printEntry entryList) :
    action.isOutput = true := by
  have hcolumns : ∀ columns : List Column, action ∈ C.printColumn columns → action.isOutput = true := by
    intro columns hmem
    obtain ⟨column, -, rfl⟩ := List.mem_map.1 hmem
    rfl
  have hrow : ∀ eventType rowData, action ∈ C.printRow eventType rowData → action.isOutput = true := by
    intro eventType rowData hmem
    unfold printRow at hmem
    split at hmem
    · exact hcolumns _ hmem
    · exact hcolumns _ hmem
    · simp only [List.cons_append, List.mem_cons, List.mem_append] at hmem
      rcases hmem with rfl | hmem | rfl | hmem
      · rfl
      · exact hcolumns _ hmem
      · rfl
      · exact hcolumns _ hmem
  induction entryList with
  | nil => cases h
  | cons entry entryList ih =>
    unfold printEntry at h
    split at h
    · exact ih h
    · split at h
      · obtain rfl := List.mem_singleton.1 h
        rfl
      · rcases List.mem_append.1 h with h | h
        · rcases List.mem_cons.1 h with rfl | h
          · rfl
          · obtain ⟨rowData, -, hmem⟩ := List.mem_flatMap.1 h
            exact hrow _ rowData hmem
        · exact ih h

/-- What is printed for a batch that is not skipped is what it holds, if it is all parsed. -/
theorem printEntry_printed_iff (message : Message) (hid : message.id ≠ -1) :
    C.Printed message (C.printEntry message.entries) ↔ C.WellFormed message := by
  constructor
  · intro h
    exact ⟨parses_of_printed h, fun heq => absurd heq hid⟩
  · intro h
    exact printEntry_shown h.parses

/-- Nothing is printed for a batch that is skipped, which is right if it holds no row changes. -/
theorem skipped_printed_iff (message : Message) (hskip : message.id = -1 ∨ message.entries = []) :
    C.Printed message [] ↔ C.WellFormed message := by
  constructor
  · intro h
    have hnil := changes_eq_nil_of_printed h
    refine ⟨fun entry hentry => ?_, fun _ => hnil⟩
    rw [hnil] at hentry
    cases hentry
  · intro h
    refine printed_nil ?_
    rcases hskip with hid | hnil
    · exact h.noBatch hid
    · unfold Message.changes
      rw [hnil]
      rfl

/-- The acknowledgements of the loop: what comes before one belongs to its batch. -/
theorem loop_acked (polls : List Poll) {pre post : List CanalAction} {batchId : ℤ}
    (h : C.loop polls = pre ++ .ack batchId :: post) :
    ∃ earlier message actions, pre = earlier ++ .getWithoutAck message :: actions ∧ message.id = batchId ∧
      (∀ action ∈ actions, action.isOutput = true) ∧ (C.Printed message actions ↔ C.WellFormed message) := by
  induction polls generalizing pre with
  | nil => simp [loop] at h
  | cons poll polls ih =>
    cases poll with
    | failed => simp [loop] at h
    | batch message interrupted =>
      -- the acknowledgement is that of this batch, or one of a later batch
      have hnext : ∀ actions, (∀ action ∈ actions, action.isOutput = true) →
          (C.Printed message actions ↔ C.WellFormed message) →
          C.loop (.batch message interrupted :: polls) =
            (.getWithoutAck message :: actions) ++ .ack message.id :: C.loop polls →
          ∃ earlier m actions', pre = earlier ++ .getWithoutAck m :: actions' ∧ m.id = batchId ∧
            (∀ action ∈ actions', action.isOutput = true) ∧ (C.Printed m actions' ↔ C.WellFormed m) := by
        intro actions houtput hiff hloop
        rw [hloop] at h
        have hnot : CanalAction.ack batchId ∉ CanalAction.getWithoutAck message :: actions := by
          intro hmem
          rcases List.mem_cons.1 hmem with heq | hmem
          · cases heq
          · exact absurd (houtput _ hmem) Bool.false_ne_true
        obtain ⟨pre', rfl, hrest⟩ := Lib.append_eq_split h hnot
        cases pre' with
        | nil =>
          obtain ⟨hid, -⟩ := List.cons.inj hrest
          cases hid
          exact ⟨[], message, actions, by simp, rfl, houtput, hiff⟩
        | cons action pre' =>
          obtain ⟨rfl, hlater⟩ := List.cons.inj hrest
          obtain ⟨earlier, m, actions', rfl, hm⟩ := ih hlater
          exact ⟨.getWithoutAck message :: actions ++ .ack message.id :: earlier, m, actions', by simp, hm⟩
      by_cases hskip : message.id = -1 ∨ message.entries = []
      · cases interrupted with
        | true =>
          -- the sleep after this batch ends the run before its acknowledgement
          simp only [loop, if_pos hskip, if_true] at h
          have hmem : CanalAction.ack batchId ∈ [CanalAction.getWithoutAck message] := by
            rw [h]
            simp
          simp at hmem
        | false =>
          refine hnext [] (fun _ hmem => by cases hmem) (skipped_printed_iff message hskip) ?_
          simp [loop, hskip]
      · refine hnext _ (fun _ hmem => isOutput_printEntry hmem)
          (printEntry_printed_iff message fun hid => hskip (Or.inl hid)) ?_
        simp [loop, hskip]

/-- **An acknowledged batch was fully printed if and only if all of it is parsed.** Before
each acknowledgement the client polled the batch with this id, and did nothing since but
print. What it printed is all row changes of the batch, in order and each once, if and
only if each of them can be parsed (and a batch with the id that stands for none has no
row changes). -/
theorem acked_printed_iff (C : CanalClient) {polls : List Poll} {pre post : List CanalAction} {batchId : ℤ}
    (h : C.main polls = pre ++ .ack batchId :: post) :
    ∃ earlier message actions, pre = earlier ++ .getWithoutAck message :: actions ∧ message.id = batchId ∧
      (∀ action ∈ actions, action.isOutput = true) ∧ (C.Printed message actions ↔ C.WellFormed message) := by
  have hstart : CanalAction.ack batchId ∉ [CanalAction.connect, .subscribe, .rollback] := by simp
  unfold main at h
  rw [List.append_assoc] at h
  obtain ⟨pre', rfl, hrest⟩ := Lib.append_eq_split h hstart
  -- the acknowledgement is not what the client ends with
  have hloop : ∃ post', C.loop polls = pre' ++ .ack batchId :: post' := by
    rcases List.append_eq_append_iff.1 hrest with ⟨rest, -, hend⟩ | ⟨rest, hloop, hend⟩
    · cases rest with
      | nil => cases hend
      | cons action rest => simp at hend
    · cases rest with
      | nil => cases hend
      | cons action rest =>
        obtain ⟨rfl, -⟩ := List.cons.inj hend
        exact ⟨rest, hloop⟩
  obtain ⟨post', hloop⟩ := hloop
  obtain ⟨earlier, message, actions, rfl, hmessage⟩ := loop_acked polls hloop
  exact ⟨_, message, actions, (List.append_assoc _ _ _).symm, hmessage⟩

/-- Row changes are parsed if they hold something. -/
def parsesNonempty : CanalClient where
  parseFrom := fun value =>
    if value = [] then .error ⟨"com.google.protobuf.InvalidProtocolBufferException", none⟩
    else .ok ⟨.insert, [⟨[], [⟨"id", "int(11)", 4, "1", true⟩]⟩]⟩
  jdbcType := fun _ => "INTEGER"

/-- A transaction of two changes, with the stored value of the first. -/
def twoChanges (value : List UInt8) : Message :=
  ⟨7, [⟨.transactionBegin, ⟨"", ""⟩, []⟩, ⟨.rowData, ⟨"study", "test1"⟩, value⟩, ⟨.rowData, ⟨"study", "test2"⟩, [1]⟩,
    ⟨.transactionEnd, ⟨"", ""⟩, []⟩]⟩

/-- The actions between the poll and the acknowledgement of the transaction. -/
def betweenAcks (value : List UInt8) : List CanalAction := parsesNonempty.printEntry (twoChanges value).entries

/-- Where all is parsed, all is printed before the acknowledgement. -/
theorem acked_printed : ∃ earlier actions,
    parsesNonempty.main [.batch (twoChanges [1]) false] =
      earlier ++ .getWithoutAck (twoChanges [1]) :: actions ++ .ack 7 :: [.disconnect] ∧
      parsesNonempty.Printed (twoChanges [1]) actions := by
  have hmain : parsesNonempty.main [.batch (twoChanges [1]) false] =
      ([.connect, .subscribe, .rollback, .getWithoutAck (twoChanges [1])] ++ betweenAcks [1]) ++
        .ack 7 :: [.disconnect] := rfl
  obtain ⟨earlier, message, actions, hpre, -, -, hiff⟩ := acked_printed_iff parsesNonempty hmain
  -- the run polls nothing but this batch
  have hmessage : CanalAction.getWithoutAck message ∈
      [CanalAction.connect, .subscribe, .rollback, .getWithoutAck (twoChanges [1])] ++ betweenAcks [1] := by
    rw [hpre]
    simp
  obtain rfl : message = twoChanges [1] := by
    rcases List.mem_append.1 hmessage with hmem | hmem
    · simpa using hmem
    · exact absurd (isOutput_printEntry hmem) Bool.false_ne_true
  refine ⟨earlier, actions, by rw [hmain, hpre], hiff.2 ⟨fun entry hentry => ?_, fun hid => by cases hid⟩⟩
  -- both changes hold something
  have hstored : ∀ e ∈ (twoChanges [1]).changes, e.storeValue ≠ [] := by decide
  exact ⟨_, if_neg (hstored entry hentry)⟩

/-- **A batch is acknowledged with a change unprinted.** The first change is not parsed, which
ends the printing of the batch; the second one is lost with it. -/
theorem rest_dropped :
    parsesNonempty.main [.batch (twoChanges []) false] =
      [.connect, .subscribe, .rollback, .getWithoutAck (twoChanges []),
        .parseError ⟨.rowData, ⟨"study", "test1"⟩, []⟩, .ack 7, .disconnect] ∧
      ¬ parsesNonempty.Printed (twoChanges []) [.parseError ⟨.rowData, ⟨"study", "test1"⟩, []⟩] := by
  refine ⟨rfl, ?_⟩
  intro hprinted
  -- the first change has no row change
  have hchange : (⟨.rowData, ⟨"study", "test1"⟩, []⟩ : Entry) ∈ (twoChanges []).changes := by decide
  obtain ⟨rowChange, hparse⟩ := parses_of_printed hprinted _ hchange
  cases hparse

end CanalClient

end StudyTech
