import StudyTech.Proof.EditHistory

/-!
# Runs of an editor

Whatever is done with an editor, a text of a generation is the text of that generation at any other time
(`runs_inv`): an editor that is clean shows what it showed when it was marked (`clean_value`), undo and redo walk
along a line of texts (`undo_redo_walk`), and what was changed is undone (`undo_edit`).
-/

namespace StudyTech

open Lib

variable {α : Type} {options : EditOptions α} {first : ℕ} {text : List (List α)}
  {version version' : ℕ → List (List α)} {start ed : Editor α} {s s' : EditState α} {action : EditAction α}

/-- What is asked of an action on an editor. -/
def Editor.Allowed (ed : Editor α) (action : EditAction α) : Prop := ed.toEditState.Allowed action

instance decidableAllowed [DecidableEq α] (ed : Editor α) : ∀ action, Decidable (ed.Allowed action)
  | .change _ change => inferInstanceAs (Decidable (ed.doc.Takes change))
  | .fromHistory call _ allowSelectionOnly =>
    inferInstanceAs (Decidable (allowSelectionOnly = true → call.sameOp ed.history.lastSelOp = false))
  | .select call sel _ =>
    inferInstanceAs (Decidable (sel.In ed.doc.first ed.doc.texts ∧
      (call.sameOp ed.history.lastSelOp = true → topIsSelection ed.history.done = true)))
  | .clearHistory => inferInstanceAs (Decidable (ed.history.generation = ed.history.maxGeneration))
  | .setUndoDepth _ => isTrue trivial
  | .markClean => isTrue trivial

def EditAction.isMarkClean : EditAction α → Bool
  | .markClean => true
  | _ => false

theorem newEditor_inv (options : EditOptions α) (htext : text ≠ []) (time : ℤ) : ∃ ed version,
    newEditor options first text time = some ed ∧ ed.toEditState.Inv first version := by
  obtain ⟨doc, hdoc, hshows⟩ := newDoc_shows first htext
  obtain ⟨line, lines, rfl⟩ := List.exists_cons_of_ne_nil htext
  have hstart : (⟨first, 0⟩ : Pos).In first (line :: lines) := by
    refine ⟨le_rfl, line, ?_, Nat.zero_le _⟩
    show (line :: lines)[first - first]? = some line
    rw [Nat.sub_self]
    rfl
  have hsel : (simpleSelection ⟨first, 0⟩ ⟨first, 0⟩).In first (line :: lines) := by
    refine ⟨fun r hr => ?_, Nat.one_pos⟩
    obtain rfl := List.mem_singleton.1 hr
    exact ⟨hstart, hstart⟩
  have hnew : (⟨doc, simpleSelection ⟨first, 0⟩ ⟨first, 0⟩, History.new 0⟩ : EditState α).Inv first
      fun _ => line :: lines :=
    ⟨hshows, hsel, Nat.one_pos, le_rfl, trivial, trivial, trivial, trivial, fun hsome => absurd rfl hsome⟩
  have hop : ({ time := time } : EditCall).sameOp (History.new 0 : History α).lastSelOp = true →
      topIsSelection (History.new 0 : History α).done = true := fun hsame => nomatch hsame
  obtain ⟨s, hs, hinv, -⟩ := setSelection_inv options hnew hop hsel (some {})
  unfold newEditor
  simp only [hdoc, Option.bind_some, hs, Option.map_some]
  exact ⟨_, _, rfl, hinv⟩

theorem EditState.Extends.trans {s'' : EditState α} {version'' : ℕ → List (List α)} (h : s.Extends s' version version')
    (h' : s'.Extends s'' version' version'') : s.Extends s'' version version'' :=
  ⟨fun generation hle => (h'.same generation (hle.trans h.le)).trans (h.same generation hle), h.le.trans h'.le⟩

theorem editStep_eq (hact : ed.toEditState.act options action = some s') :
    editStep options ed action = some ⟨s', ed.remember action⟩ := by
  unfold editStep
  rw [hact]
  rfl

/-- Every run goes through, and the versions that there are stay. -/
theorem runs_inv {actions : List (EditAction α)} (h : start.toEditState.Inv first version)
    (hok : Along (editStep options) Editor.Allowed start actions) :
    ∃ ed version', exec (editStep options) start actions = some ed ∧ ed.toEditState.Inv first version' ∧
      start.toEditState.Extends ed.toEditState version version' ∧
      ((∀ action ∈ actions, action.isMarkClean = false) → ed.cleanGeneration = start.cleanGeneration) := by
  induction actions generalizing start version with
  | nil => exact ⟨start, version, rfl, h, .of_le le_rfl, fun _ => rfl⟩
  | cons action actions ih =>
    obtain ⟨hallowed, hrest⟩ := hok
    obtain ⟨s', version', hact, hinv, hextends⟩ := act_inv options h hallowed
    have hstep := editStep_eq hact
    obtain ⟨ed, version'', hrun, hend, hextends', hclean⟩ := ih hinv (hrest _ hstep)
    rw [exec_cons, hstep]
    refine ⟨ed, version'', hrun, hend, hextends.trans hextends', fun hno => ?_⟩
    rw [hclean fun action haction => hno action (List.mem_cons_of_mem _ haction)]
    cases action with
    | markClean => exact nomatch hno _ List.mem_cons_self
    | _ => rfl

/-- Every editor that a run leads to keeps the invariant. -/
theorem reached_inv {actions : List (EditAction α)} {time : ℤ} (htext : text ≠ [])
    (hnew : newEditor options first text time = some start)
    (hok : Along (editStep options) Editor.Allowed start actions)
    (hrun : exec (editStep options) start actions = some ed) : ∃ version, ed.toEditState.Inv first version := by
  obtain ⟨start', version, hstart', hinv⟩ := newEditor_inv options htext time
  obtain rfl : start' = start := Option.some.inj (hstart'.symm.trans hnew)
  obtain ⟨ed', version', hrun', hed, -, -⟩ := runs_inv hinv hok
  obtain rfl : ed' = ed := Option.some.inj (hrun'.symm.trans hrun)
  exact ⟨version', hed⟩

/-- **A clean editor shows what was saved.** Whatever is changed (the whole text only where it starts with line 0),
undone, redone, selected and cleared, in whatever operations and with whatever origins, nothing fails; and at two
times at which an editor is clean, as it is when it is new or marked, it has the same value if it was not marked in
between. -/
theorem clean_value {before after : List (EditAction α)} {time : ℤ} (htext : text ≠ [])
    (hnew : newEditor options first text time = some start)
    (hok : Along (editStep options) Editor.Allowed start (before ++ after))
    (hrun : exec (editStep options) start before = some ed) (hclean : ed.isClean = true)
    (hno : ∀ action ∈ after, action.isMarkClean = false) :
    ∃ ed', exec (editStep options) ed after = some ed' ∧ (ed'.isClean = true →
      ∀ newline lineSep, getValue newline ed'.doc lineSep = getValue newline ed.doc lineSep) := by
  obtain ⟨hbefore, hafter⟩ := along_append.1 hok
  obtain ⟨version, hed⟩ := reached_inv htext hnew hbefore hrun
  obtain ⟨last, version', hlast, hend, hextends, hsame⟩ := runs_inv hed (hafter _ hrun)
  refine ⟨last, hlast, fun hclean' newline lineSep => ?_⟩
  have hgeneration : last.history.generation = ed.history.generation := by
    unfold Editor.isClean at hclean hclean'
    rw [beq_iff_eq] at hclean hclean'
    rw [hclean, hclean', hsame hno]
  rw [getValue_eq hend.shows, getValue_eq hed.shows, hgeneration, hextends.same _ hed.le]

/-- An editor of two lines. -/
def shortEditor : Editor ℕ :=
  (newEditor {} 0 [[1, 2], [3]] 0).getD ⟨⟨Doc.new 0, simpleSelection ⟨0, 0⟩ ⟨0, 0⟩, History.new 0⟩, 1⟩

theorem shortEditor_eq : newEditor {} 0 [[1, 2], [3]] 0 = some shortEditor := by
  obtain ⟨ed, hed⟩ := Option.isSome_iff_exists.1 (by decide +kernel : (newEditor {} 0 [[1, 2], [3]] 0).isSome = true)
  unfold shortEditor
  rw [hed]
  rfl

/-- A change across the lines, and a mark. -/
def changeAndMark : List (EditAction ℕ) := [.change ⟨some 1, 10⟩ acrossLines, .markClean]

def undoAndRedo : List (EditAction ℕ) := [.fromHistory ⟨some 2, 11⟩ .undo false, .fromHistory ⟨some 3, 12⟩ .redo false]

/-- The editor that they lead to. -/
def markedEditor : Editor ℕ := (exec (editStep {}) shortEditor changeAndMark).getD shortEditor

theorem markedEditor_eq : exec (editStep {}) shortEditor changeAndMark = some markedEditor := by
  obtain ⟨ed, hed⟩ :=
    Option.isSome_iff_exists.1 (by decide +kernel : (exec (editStep {}) shortEditor changeAndMark).isSome = true)
  unfold markedEditor
  rw [hed]
  rfl

/-- The change is undone and redone, and the editor is clean again. -/
theorem clean_value_twice : ∃ ed', exec (editStep {}) markedEditor undoAndRedo = some ed' ∧ ed'.isClean = true ∧
    getValue 0 ed'.doc [] = getValue 0 markedEditor.doc [] := by
  obtain ⟨ed', hrun, hvalue⟩ := clean_value (List.cons_ne_nil _ _) shortEditor_eq
    (by decide +kernel : Along (editStep {}) Editor.Allowed shortEditor (changeAndMark ++ undoAndRedo)) markedEditor_eq
    (by decide +kernel) (by decide)
  have hclean : (exec (editStep {}) markedEditor undoAndRedo).map Editor.isClean = some true := by decide +kernel
  rw [hrun] at hclean
  exact ⟨ed', hrun, Option.some.inj hclean, hvalue (Option.some.inj hclean) 0 []⟩

/-- Cleared after the undo, the history says that the editor is clean, with another text. -/
example : (exec (editStep {}) markedEditor [.fromHistory ⟨some 2, 11⟩ .undo false, .clearHistory]).map
    (fun ed => (ed.isClean, ed.doc.texts)) = some (true, [[1, 2], [3]]) := by decide +kernel

/-- Where an operation selects, redoes and selects again, the second selection takes the place of the change, which
can then be neither undone nor redone. -/
example : (exec (editStep {}) markedEditor [.fromHistory ⟨some 2, 11⟩ .undo false,
    .select ⟨some 3, 12⟩ (simpleSelection ⟨0, 1⟩ ⟨0, 1⟩) none, .fromHistory ⟨some 3, 12⟩ .redo false,
    .select ⟨some 3, 12⟩ (simpleSelection ⟨0, 0⟩ ⟨0, 0⟩) none]).map (fun ed => (ed.history.size, ed.doc.texts)) =
      some ((0, 0), [[1, 4], [5, 6, 3]]) := by decide +kernel

/-- An action that changes no text but by undo and redo. -/
def EditAction.isMove : EditAction α → Bool
  | .fromHistory _ _ allowSelectionOnly => !allowSelectionOnly
  | .select .. => true
  | .setUndoDepth _ => true
  | .markClean => true
  | _ => false

/-- Where actions lead on a line of `count` texts: undo goes back to the text before and redo to the next one,
where there is one. -/
def walk (count : ℕ) : ℕ → List (EditAction α) → ℕ
  | position, [] => position
  | position, .fromHistory _ .undo _ :: actions => walk count (position - 1) actions
  | position, .fromHistory _ .redo _ :: actions =>
    walk count (if position + 1 < count then position + 1 else position) actions
  | position, _ :: actions => walk count position actions

/-- The texts that undo and redo lead to, from the oldest on. -/
def EditState.line (version : ℕ → List (List α)) (s : EditState α) : List (List (List α)) :=
  ((generations s.history.done).map version).reverse ++
    version s.history.generation :: (generations s.history.undone).map version

theorem size_done (hist : History α) : hist.size.1 = (generations hist.done).length :=
  (length_generations hist.done).symm

theorem size_undone (hist : History α) : hist.size.2 = (generations hist.undone).length :=
  (length_generations hist.undone).symm

theorem line_length (version : ℕ → List (List α)) (s : EditState α) :
    (s.line version).length = s.history.size.1 + 1 + s.history.size.2 := by
  unfold EditState.line
  rw [List.length_append, List.length_reverse, List.length_map, List.length_cons, List.length_map, size_done,
    size_undone]
  omega

theorem line_current (version : ℕ → List (List α)) (s : EditState α) :
    (s.line version)[s.history.size.1]? = some (version s.history.generation) := by
  have hlength : ((generations s.history.done).map version).reverse.length = s.history.size.1 := by
    rw [List.length_reverse, List.length_map, size_done]
  unfold EditState.line
  rw [← hlength, List.getElem?_append_right le_rfl, Nat.sub_self]
  rfl

/-- The actions that are no change move along the line. -/
theorem move_line (actions : List (EditAction α)) (h : s.Inv first version) (hallowed : s.Allowed action)
    (hmove : action.isMove = true) (hact : s.act options action = some s') :
    s'.Inv first version ∧ s'.line version = s.line version ∧
      walk (s.line version).length s.history.size.1 (action :: actions) =
        walk (s.line version).length s'.history.size.1 actions := by
  cases action with
  | change call change => exact nomatch hmove
  | clearHistory => exact nomatch hmove
  | markClean =>
    obtain rfl := Option.some.inj hact
    exact ⟨⟨h.shows, h.sel, h.pos, h.le, h.done, h.undone, h.doneGrounded, h.undoneGrounded, h.origin⟩, rfl, rfl⟩
  | setUndoDepth undoDepth =>
    obtain rfl := Option.some.inj hact
    exact ⟨⟨h.shows, h.sel, h.pos, h.le, h.done, h.undone, h.doneGrounded, h.undoneGrounded, h.origin⟩, rfl, rfl⟩
  | select call sel selOptions =>
    obtain ⟨hsel, hop⟩ := hallowed
    rw [h.shows.first, show s.doc.texts = _ from h.shows.texts] at hsel
    obtain ⟨made, hmade, hinv, -, htimeline⟩ := setSelection_inv options h hop hsel selOptions
    obtain rfl : made = s' := Option.some.inj (hmade.symm.trans hact)
    obtain ⟨hdone, hrest⟩ := Prod.mk.inj htimeline
    obtain ⟨hgeneration, hundone⟩ := Prod.mk.inj hrest
    refine ⟨hinv, ?_, ?_⟩
    · unfold EditState.line
      rw [hdone, hgeneration, hundone]
    · have hsize : made.history.size.1 = s.history.size.1 := by
        rw [size_done, size_done, hdone]
      rw [hsize]
      rfl
  | fromHistory call type allowSelectionOnly =>
    obtain rfl : allowSelectionOnly = false := by
      cases allowSelectionOnly with
      | false => rfl
      | true => exact nomatch hmove
    obtain ⟨made, hmade, hinv, -, hmoved⟩ := makeChangeFromHistory_inv options type h hallowed
    obtain rfl : made = s' := Option.some.inj (hmade.symm.trans hact)
    refine ⟨hinv, ?_⟩
    rcases hmoved rfl with ⟨hnone, rfl⟩ | ⟨hsource, hdest⟩
    · refine ⟨rfl, ?_⟩
      cases type with
      | undo =>
        have hzero : made.history.size.1 = 0 := by
          rw [size_done]
          exact congrArg List.length hnone
        show walk _ (made.history.size.1 - 1) actions = _
        rw [hzero]
      | redo =>
        have hzero : made.history.size.2 = 0 := by
          rw [size_undone]
          exact congrArg List.length hnone
        show walk _ (if made.history.size.1 + 1 < _ then _ else _) actions = _
        rw [if_neg (by rw [line_length, hzero]; omega)]
    · cases type with
      | undo =>
        replace hsource : generations s.history.done = made.history.generation :: generations made.history.done :=
          hsource
        replace hdest : generations made.history.undone = s.history.generation :: generations s.history.undone := hdest
        have hsize : made.history.size.1 = s.history.size.1 - 1 := by
          rw [size_done, size_done, hsource]
          rfl
        refine ⟨?_, ?_⟩
        · unfold EditState.line
          simp only [hsource, hdest, List.map_cons, List.reverse_cons, List.append_assoc, List.singleton_append]
        · rw [hsize]
          rfl
      | redo =>
        replace hsource : generations s.history.undone = made.history.generation :: generations made.history.undone :=
          hsource
        replace hdest : generations made.history.done = s.history.generation :: generations s.history.done := hdest
        have hsize : made.history.size.1 = s.history.size.1 + 1 := by
          rw [size_done, size_done, hdest]
          rfl
        have hmore : 0 < s.history.size.2 := by
          rw [size_undone, hsource]
          exact Nat.succ_pos _
        refine ⟨?_, ?_⟩
        · unfold EditState.line
          simp only [hsource, hdest, List.map_cons, List.reverse_cons, List.append_assoc, List.singleton_append]
        · show walk _ (if s.history.size.1 + 1 < _ then _ else _) actions = _
          rw [if_pos (by rw [line_length]; omega), hsize]

theorem moves_line {actions : List (EditAction α)} (h : start.toEditState.Inv first version)
    (hok : Along (editStep options) Editor.Allowed start actions) (hmoves : ∀ action ∈ actions, action.isMove = true) :
    ∃ ed, exec (editStep options) start actions = some ed ∧ ed.toEditState.Inv first version ∧
      ed.toEditState.line version = start.toEditState.line version ∧
      walk (start.toEditState.line version).length start.history.size.1 actions = ed.history.size.1 := by
  induction actions generalizing start with
  | nil => exact ⟨start, rfl, h, rfl, rfl⟩
  | cons action actions ih =>
    obtain ⟨hallowed, hrest⟩ := hok
    obtain ⟨s', -, hact, -, -⟩ := act_inv options h hallowed
    obtain ⟨hinv, hline, hwalk⟩ := move_line actions h hallowed (hmoves _ List.mem_cons_self) hact
    have hstep := editStep_eq hact
    have hinv' : (⟨s', start.remember action⟩ : Editor α).toEditState.Inv first version := hinv
    obtain ⟨ed, hrun, hend, hsame, hposition⟩ := ih hinv' (hrest _ hstep)
      fun action haction => hmoves action (List.mem_cons_of_mem _ haction)
    rw [exec_cons, hstep]
    refine ⟨ed, hrun, hend, hsame.trans hline, ?_⟩
    rw [hwalk, ← hposition]
    show _ = walk (s'.line version).length _ _
    rw [hline]

/-- **Undo and redo walk along a line of texts.** After every run of an editor there are texts, one more than what
can be undone and redone, such that any undoing and redoing, with selections, marks and depths set in between,
leads to the text at the position where a walk along them ends. -/
theorem undo_redo_walk {actions : List (EditAction α)} {time : ℤ} (htext : text ≠ [])
    (hnew : newEditor options first text time = some start)
    (hok : Along (editStep options) Editor.Allowed start actions)
    (hrun : exec (editStep options) start actions = some ed) :
    ∃ shown : List (List (List α)), shown.length = ed.history.size.1 + 1 + ed.history.size.2 ∧
      ∀ moves, (∀ action ∈ moves, action.isMove = true) → Along (editStep options) Editor.Allowed ed moves →
        ∃ ed' texts, exec (editStep options) ed moves = some ed' ∧
          shown[walk shown.length ed.history.size.1 moves]? = some texts ∧
          ∀ newline lineSep, getValue newline ed'.doc lineSep = (orNewline newline lineSep).intercalate texts := by
  obtain ⟨version, hed⟩ := reached_inv htext hnew hok hrun
  refine ⟨ed.toEditState.line version, line_length version _, fun moves hmoves hallowed => ?_⟩
  obtain ⟨last, hlast, hend, hline, hwalk⟩ := moves_line hed hallowed hmoves
  refine ⟨last, version last.history.generation, hlast, ?_, fun newline lineSep => getValue_eq hend.shows⟩
  rw [hwalk, ← hline]
  exact line_current version _

/-- One change can be undone; undone and redone, the text is the second one again. -/
theorem undo_redo_walk_marked : ∃ shown : List (List (List ℕ)), shown.length = 2 ∧
    ∃ ed' texts, exec (editStep {}) markedEditor undoAndRedo = some ed' ∧ shown[1]? = some texts ∧
      getValue 0 ed'.doc [] = [0].intercalate texts := by
  have hok : Along (editStep {}) Editor.Allowed shortEditor changeAndMark := by decide +kernel
  obtain ⟨shown, hlength, hwalk⟩ := undo_redo_walk (List.cons_ne_nil _ _) shortEditor_eq hok markedEditor_eq
  have hsize : markedEditor.history.size = (1, 0) := by decide +kernel
  rw [hsize] at hlength hwalk
  obtain ⟨ed', texts, hrun, hat, hvalue⟩ := hwalk undoAndRedo (by decide) (by decide +kernel)
  rw [hlength] at hat
  exact ⟨shown, hlength, ed', texts, hrun, hat, hvalue 0 []⟩

/-- What can be undone is undone: the generation of the event becomes that of the document. -/
theorem fromHistory_generation (options : EditOptions α) (call : EditCall) (type : HistType)
    (h : s.Inv first version) {generation : ℕ} {older : List ℕ}
    (hsource : generations (s.history.source type) = generation :: older) :
    ∃ s', s.makeChangeFromHistory options call type false = some s' ∧ s'.Inv first version ∧
      s'.history.generation = generation ∧
      generations (s'.history.dest type) = s.history.generation :: generations (s.history.dest type) := by
  have hop : false = true → call.sameOp s.history.lastSelOp = false := fun hall => nomatch hall
  obtain ⟨s', hs', hinv, -, hmoved⟩ := makeChangeFromHistory_inv options type h hop
  refine ⟨s', hs', hinv, ?_⟩
  rcases hmoved rfl with ⟨hnone, -⟩ | ⟨hmade, hdest⟩
  · exact nomatch hsource.symm.trans hnone
  · exact ⟨(List.cons.inj (hmade.symm.trans hsource)).1, hdest⟩

/-- **An edit is undone.** After every run of an editor, for every change that an event of its own is made for (not
nothing in place of nothing, not joined to the last one, and with a depth for it): undo gives the value before the
change, and redo the one after it. -/
theorem undo_edit {actions : List (EditAction α)} {time : ℤ} (htext : text ≠ [])
    (hnew : newEditor options first text time = some start)
    (hok : Along (editStep options) Editor.Allowed start actions)
    (hrun : exec (editStep options) start actions = some ed) {call : EditCall} {change : Change α}
    (htakes : ed.doc.Takes change) (hnothing : change.isNothing = false)
    (hjoins : joinsLastEvent options call ed.history change = false)
    (hdepth : ∀ undoDepth ∈ ed.history.undoDepth, 2 ≤ undoDepth) (undoCall redoCall : EditCall) :
    ∃ changed undone redone, editStep options ed (.change call change) = some changed ∧
      editStep options changed (.fromHistory undoCall .undo false) = some undone ∧
      editStep options undone (.fromHistory redoCall .redo false) = some redone ∧ ∀ newline lineSep,
        getValue newline undone.doc lineSep = getValue newline ed.doc lineSep ∧
        getValue newline redone.doc lineSep = getValue newline changed.doc lineSep := by
  obtain ⟨version, hed⟩ := reached_inv htext hnew hok hrun
  have hchange : change.In first (version ed.history.generation) := by
    have htakes' : change.In ed.doc.first ed.doc.texts := htakes
    rwa [hed.shows.first, show ed.doc.texts = _ from hed.shows.texts] at htakes'
  obtain ⟨changed, version', hchanged, hchangedInv, hextends, hown⟩ := makeChange_inv options call hed hchange
  obtain ⟨older, holder⟩ := hown hnothing hjoins hdepth
  -- the event leads to the generation before the change, and the one that undo makes to that of the change
  obtain ⟨undone, hundone, hundoneInv, hback, hredo⟩ :=
    fromHistory_generation options undoCall .undo hchangedInv holder
  obtain ⟨redone, hredone, hredoneInv, hforward, -⟩ :=
    fromHistory_generation options redoCall .redo hundoneInv hredo
  refine ⟨⟨changed, ed.cleanGeneration⟩, ⟨undone, ed.cleanGeneration⟩, ⟨redone, ed.cleanGeneration⟩, ?_, ?_, ?_,
    fun newline lineSep => ⟨?_, ?_⟩⟩
  · exact editStep_eq hchanged
  · exact editStep_eq hundone
  · exact editStep_eq hredone
  · rw [getValue_eq hundoneInv.shows, getValue_eq hed.shows, hback, hextends.same _ hed.le]
  · rw [getValue_eq hredoneInv.shows, getValue_eq hchangedInv.shows, hforward]

theorem undo_edit_marked : ∃ changed undone redone,
    editStep {} markedEditor (.change ⟨some 4, 20⟩ intoLine) = some changed ∧
      editStep {} changed (.fromHistory ⟨some 5, 21⟩ .undo false) = some undone ∧
      editStep {} undone (.fromHistory ⟨some 6, 22⟩ .redo false) = some redone ∧
        getValue 0 undone.doc [] = getValue 0 markedEditor.doc [] ∧
        getValue 0 redone.doc [] = getValue 0 changed.doc [] := by
  have hok : Along (editStep {}) Editor.Allowed shortEditor changeAndMark := by decide +kernel
  have hdepth : markedEditor.history.undoDepth = none := by decide +kernel
  obtain ⟨changed, undone, redone, hchanged, hundone, hredone, hvalue⟩ :=
    undo_edit (List.cons_ne_nil _ _) shortEditor_eq hok markedEditor_eq
      (by decide +kernel : markedEditor.doc.Takes intoLine) (by decide)
      (by decide +kernel : joinsLastEvent {} ⟨some 4, 20⟩ markedEditor.history intoLine = false)
      (by rw [hdepth]; exact fun undoDepth hsome => nomatch hsome) ⟨some 5, 21⟩ ⟨some 6, 22⟩
  exact ⟨changed, undone, redone, hchanged, hundone, hredone, (hvalue 0 []).1, (hvalue 0 []).2⟩

end StudyTech
