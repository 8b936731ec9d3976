import StudyTech.Spec.EditHistory
import StudyTech.Proof.DocValue
import StudyTech.Proof.EditSelection

/-!
# What undo leads to

Every generation of an editor has a version of the text. The changes of an event lead back to the version of its
generation (`RevertTo`), a stack leads from version to version (`Back`), with a selection below every change
(`Grounded`). Each action can be made, and keeps that and the versions there were (`act_inv`).
-/

namespace StudyTech

open Lib

variable {α : Type} {options : EditOptions α} {call : EditCall} {first bound bound' : ℕ}
  {texts texts' origin : List (List α)} {doc : Doc α} {change last : Change α} {earlier : List (Change α)}
  {version version' : ℕ → List (List α)} {events source dest : List (HistEvent α)} {sel : Selection}

section Selections

/-- The positions of the selection are in the texts, and one of its ranges is primary. -/
def Selection.In (first : ℕ) (texts : List (List α)) (sel : Selection) : Prop :=
  (∀ r ∈ sel.ranges, r.anchor.In first texts ∧ r.head.In first texts) ∧ sel.primIndex < sel.ranges.length

instance decidableSelectionIn (first : ℕ) (texts : List (List α)) (sel : Selection) : Decidable (sel.In first texts) :=
  inferInstanceAs (Decidable ((∀ r ∈ sel.ranges, r.anchor.In first texts ∧ r.head.In first texts) ∧
    sel.primIndex < sel.ranges.length))

/-- A selection goes along with a change. -/
theorem afterChange_in (hchange : change.In first texts) (hsel : sel.In first texts) :
    (sel.afterChange change).In first (change.apply first texts) := by
  refine normalizeSelection_keeps (fun r hr => ?_) ?_
  · obtain ⟨given, hgiven, rfl⟩ := List.mem_map.1 hr
    exact ⟨(adjust_in hchange (hsel.1 given hgiven).1).1, (adjust_in hchange (hsel.1 given hgiven).2).1⟩
  · rw [List.length_map]
    exact hsel.2

theorem Selection.In.primary (hsel : sel.In first texts) : sel.primary.isSome = true := by
  unfold Selection.primary
  rw [List.getElem?_eq_getElem hsel.2]
  rfl

theorem setSelectionNoUndo_in {s : EditState α} (h : s.doc.Shows first texts) (hold : s.sel.primary.isSome = true)
    (hsel : sel.In first texts) : s.setSelectionNoUndo sel = some { s with sel := sel } := by
  have hline : ∀ {pos : Pos}, pos.In first texts → (s.doc.getLine pos.line).isSome = true := by
    rintro pos ⟨hfirst, text, htext, -⟩
    obtain ⟨line, hline, -⟩ := h.getLine hfirst htext
    rw [hline]
    rfl
  unfold EditState.setSelectionNoUndo
  refine if_pos ?_
  rw [hsel.primary, hold, Bool.true_and, Bool.true_and, List.all_eq_true]
  intro r hr
  show ((s.doc.getLine r.anchor.line).isSome && (s.doc.getLine r.head.line).isSome) = true
  rw [hline (hsel.1 r hr).1, hline (hsel.1 r hr).2]
  rfl

end Selections

section Revert

/-- The changes can be made one after the other and lead from some texts to others. -/
def RevertTo (first : ℕ) : List (List α) → List (Change α) → List (List α) → Prop
  | texts, [], texts' => texts = texts'
  | texts, change :: earlier, texts' =>
    (change.In first texts ∧ change.full = false) ∧ RevertTo first (change.apply first texts) earlier texts'

theorem historyChange_eq (h : doc.Shows first texts) (hchange : change.In first texts) :
    historyChangeFromChange doc change = change.inverse first texts := by
  unfold historyChangeFromChange Change.inverse
  rw [getBetween_eq h hchange.start hchange.stop hchange.le]

/-- A change goes back in front of what leads back from where it was made. -/
theorem RevertTo.invert (hchange : change.In first texts) (h : RevertTo first texts earlier origin) :
    RevertTo first (change.apply first texts) (change.inverse first texts :: earlier) origin := by
  refine ⟨⟨inverse_in hchange, rfl⟩, ?_⟩
  rwa [inverse_apply hchange]

theorem cmpPos_eq_zero {a b : Pos} : cmpPos a b = 0 ↔ a = b := by
  obtain ⟨line, ch⟩ := a
  obtain ⟨line', ch'⟩ := b
  rw [Pos.mk.injEq]
  show (if line = line' then (ch : ℤ) - ch' else (line : ℤ) - line') = 0 ↔ _
  split <;> omega

/-- An insertion where a change back ends makes that change longer. -/
theorem lengthen_apply (hlast : last.In first texts) (hfull : last.full = false) (hchange : change.In first texts)
    (hstop : change.stop = change.start) (hat : change.start = last.stop) :
    ({ last with stop := changeEnd change } : Change α).In first (change.apply first texts) ∧
      ({ last with stop := changeEnd change } : Change α).apply first (change.apply first texts) =
        last.apply first texts := by
  have hle : PosLe (last.start.rel first) (change.start.rel first) := hat ▸ hlast.le
  obtain ⟨hstart, hfront⟩ := before_in hchange hlast.start hle
  obtain ⟨hend, -, hbehind⟩ := changeEnd_in hchange
  have hends : PosLe (change.start.rel first) ((changeEnd change).rel first) := by
    rw [(changeEnd_rel hchange).2]
    nth_rewrite 1 [← hchange.start.endOf]
    exact posLe_endOf_glue (upTo_ne_nil _ _) hchange.text
  refine ⟨⟨hstart, hend, hle.trans hends, hlast.text, fun hfull' => ?_⟩, ?_⟩
  · rw [show last.full = true from hfull'] at hfull
    exact nomatch hfull
  · show glue (upTo (change.apply first texts) (last.start.rel first))
      (glue last.text (behind (change.apply first texts) ((changeEnd change).rel first))) =
        glue (upTo texts (last.start.rel first)) (glue last.text (behind texts (last.stop.rel first)))
    rw [hfront, hbehind, hstop, hat]

theorem makeChangeSingleDoc_shows (options : EditOptions α) {s : EditState α} (h : s.doc.Shows first texts)
    (hchange : change.In first texts) (hold : s.sel.In first texts) {selAfter : Option Selection}
    (hsel : ∀ sel ∈ selAfter, sel.In first (change.apply first texts)) :
    ∃ s', s.makeChangeSingleDoc options change selAfter = some s' ∧ s'.doc.Shows first (change.apply first texts) ∧
      s'.history = s.history ∧ s'.sel.In first (change.apply first texts) := by
  obtain ⟨doc', hdoc', hshows⟩ := updateDoc_shows options.toDocOptions h hchange
  have hafter : (selAfter.getD (s.sel.afterChange change)).In first (change.apply first texts) := by
    cases selAfter with
    | none => exact afterChange_in hchange hold
    | some sel => exact hsel sel rfl
  have hset : ({ s with doc := doc' } : EditState α).setSelectionNoUndo
      (selAfter.getD (s.sel.afterChange change)) = _ := setSelectionNoUndo_in hshows hold.primary hafter
  unfold EditState.makeChangeSingleDoc
  rw [hdoc', Option.bind_some, hset]
  exact ⟨_, rfl, hshows, rfl, hafter⟩

/-- The changes of an event lead to its version, and the changes that take them back lead to the version there was. -/
theorem revertChanges_spec (options : EditOptions α) {before : Option Selection} {s : EditState α}
    {antiChanges : List (Change α)} (h : s.doc.Shows first texts) (hold : s.sel.In first texts)
    (hrevert : RevertTo first texts (change :: earlier) texts') (hbefore : ∀ sel ∈ before, sel.In first texts')
    (hanti : RevertTo first texts antiChanges origin) :
    ∃ s' antiLast antiEarlier,
      s.revertChanges options before change earlier antiChanges = some (s', antiLast, antiEarlier) ∧
      s'.doc.Shows first texts' ∧ s'.history = s.history ∧ s'.sel.In first texts' ∧
      RevertTo first texts' (antiLast :: antiEarlier) origin := by
  induction earlier generalizing s texts change antiChanges with
  | nil =>
    obtain ⟨⟨hchange, -⟩, rfl⟩ := hrevert
    obtain ⟨s', hs', hshows, hhistory, hsel⟩ := makeChangeSingleDoc_shows options h hchange hold hbefore
    unfold EditState.revertChanges
    rw [hs', historyChange_eq h hchange]
    exact ⟨_, _, _, rfl, hshows, hhistory, hsel, hanti.invert hchange⟩
  | cons next earlier ih =>
    obtain ⟨⟨hchange, -⟩, hrest⟩ := hrevert
    have hafter : ∀ sel ∈ some (s.sel.afterChange change), sel.In first (change.apply first texts) := by
      rintro sel ⟨⟩
      exact afterChange_in hchange hold
    obtain ⟨s', hs', hshows, hhistory, hsel⟩ := makeChangeSingleDoc_shows options h hchange hold hafter
    obtain ⟨s'', antiLast, antiEarlier, hs'', hshows', hhistory', hsel', hback⟩ :=
      ih hshows hsel hrest (hanti.invert hchange)
    unfold EditState.revertChanges
    rw [hs', historyChange_eq h hchange, Option.bind_some, hs'']
    exact ⟨_, _, _, rfl, hshows', hhistory'.trans hhistory, hsel', hback⟩

end Revert

section Stacks

def topIsSelection : List (HistEvent α) → Bool
  | .selection _ :: _ => true
  | _ => false

/-- Below every change there is the selection that was before it. -/
def Grounded : List (HistEvent α) → Prop
  | [] => True
  | .selection _ :: events => Grounded events
  | .changes .. :: events => topIsSelection events = true ∧ Grounded events

/-- The generations that the changes of a stack lead to. -/
def generations (events : List (HistEvent α)) : List ℕ :=
  events.filterMap fun
    | .changes _ _ generation => some generation
    | .selection _ => none

/-- The events lead back from version to version. -/
def Back (first : ℕ) (version : ℕ → List (List α)) (bound : ℕ) : List (List α) → List (HistEvent α) → Prop
  | _, [] => True
  | texts, .selection sel :: events => sel.In first texts ∧ Back first version bound texts events
  | texts, .changes last earlier generation :: events =>
    RevertTo first texts (last :: earlier) (version generation) ∧ (0 < generation ∧ generation ≤ bound) ∧
      Back first version bound (version generation) events

namespace Back

theorem frame (hsame : ∀ generation ≤ bound, version' generation = version generation) (hle : bound ≤ bound')
    (h : Back first version bound texts events) : Back first version' bound' texts events := by
  induction events generalizing texts with
  | nil => trivial
  | cons event events ih =>
    cases event with
    | selection sel => exact ⟨h.1, ih h.2⟩
    | changes last earlier generation =>
      obtain ⟨hrevert, ⟨hpos, hbound⟩, hrest⟩ := h
      refine ⟨?_, ⟨hpos, hbound.trans hle⟩, ?_⟩
      · rwa [hsame generation hbound]
      · rw [hsame generation hbound]
        exact ih hrest

theorem front {older : List (HistEvent α)} (h : Back first version bound texts (events ++ older)) :
    Back first version bound texts events := by
  induction events generalizing texts with
  | nil => trivial
  | cons event events ih =>
    cases event with
    | selection sel => exact ⟨h.1, ih h.2⟩
    | changes last earlier generation => exact ⟨h.1, h.2.1, ih h.2.2⟩

theorem pushSelection (hsel : sel.In first texts) (h : Back first version bound texts events) :
    Back first version bound texts (pushSelectionToHistory sel events) := by
  unfold pushSelectionToHistory
  split
  · split
    · exact h
    · exact ⟨hsel, h⟩
  · exact ⟨hsel, h⟩

theorem clearSelections (h : Back first version bound texts events) :
    Back first version bound texts (clearSelectionEvents events) := by
  induction events with
  | nil => exact h
  | cons event events ih =>
    cases event with
    | selection sel => exact ih h.2
    | changes last earlier generation => exact h

theorem lastChange (force : Bool) (h : Back first version bound texts events) :
    Back first version bound texts (lastChangeEvent events force) := by
  unfold lastChangeEvent
  split
  · exact h.clearSelections
  · split
    · exact h.2
    · exact h

theorem setTop (hsel : sel.In first texts) (htop : topIsSelection events = true)
    (h : Back first version bound texts events) : Back first version bound texts (replaceTop sel events) := by
  cases events with
  | nil => exact h
  | cons event events =>
    cases event with
    | selection top => exact ⟨hsel, h.2⟩
    | changes last earlier generation => exact nomatch htop

end Back

/-- What is shifted away is the oldest part. -/
theorem shiftDone_suffix {undoDepth : ℕ} {events' : List (HistEvent α)}
    (h : shiftDone undoDepth events = some events') : events' <:+ events := by
  fun_induction shiftDone undoDepth events with
  | case1 => exact Option.some.inj h ▸ List.suffix_rfl
  | case2 => exact Option.some.inj h ▸ List.suffix_rfl
  | case3 => exact nomatch h
  | case4 => exact Option.some.inj h ▸ List.suffix_rfl
  | case5 event next events _ _ ih =>
    exact (ih h).trans ((List.suffix_cons next events).trans (List.suffix_cons event _))
  | case6 event next events _ _ ih => exact (ih h).trans (List.suffix_cons event _)

section Generations

theorem exists_selection (h : topIsSelection events = true) : ∃ top older, events = .selection top :: older := by
  rcases events with _ | ⟨_ | top, older⟩
  · exact nomatch h
  · exact nomatch h
  · exact ⟨top, older, rfl⟩

theorem length_generations (events : List (HistEvent α)) :
    (generations events).length = events.countP HistEvent.isChange := by
  induction events with
  | nil => rfl
  | cons event events ih =>
    cases event with
    | selection sel => exact ih
    | changes last earlier generation => exact (congrArg Nat.succ ih).trans (List.countP_cons_of_pos rfl).symm

theorem generations_pushSelection (sel : Selection) (events : List (HistEvent α)) :
    generations (pushSelectionToHistory sel events) = generations events := by
  unfold pushSelectionToHistory
  split
  · split <;> rfl
  · rfl

theorem generations_clearSelections (events : List (HistEvent α)) :
    generations (clearSelectionEvents events) = generations events := by
  induction events with
  | nil => rfl
  | cons event events ih =>
    cases event with
    | selection sel => exact ih
    | changes last earlier generation => rfl

theorem generations_replaceTop (sel : Selection) (htop : topIsSelection events = true) :
    generations (replaceTop sel events) = generations events := by
  obtain ⟨top, older, rfl⟩ := exists_selection htop
  rfl

end Generations

section Grounded

theorem topIsSelection_pushSelection (sel : Selection) (events : List (HistEvent α)) :
    topIsSelection (pushSelectionToHistory sel events) = true := by
  unfold pushSelectionToHistory
  split
  · split <;> rfl
  · rfl

theorem topIsSelection_replaceTop (sel : Selection) (h : topIsSelection events = true) :
    topIsSelection (replaceTop sel events) = true := by
  cases events with
  | nil => exact h
  | cons event events => rfl

namespace Grounded

theorem pushSelection (sel : Selection) (h : Grounded events) : Grounded (pushSelectionToHistory sel events) := by
  unfold pushSelectionToHistory
  split
  · split <;> exact h
  · exact h

theorem clearSelections (h : Grounded events) : Grounded (clearSelectionEvents events) := by
  induction events with
  | nil => exact h
  | cons event events ih =>
    cases event with
    | selection sel => exact ih h
    | changes last earlier generation => exact h

theorem lastChange (force : Bool) (h : Grounded events) : Grounded (lastChangeEvent events force) := by
  unfold lastChangeEvent
  split
  · exact h.clearSelections
  · split <;> exact h

theorem setTop (sel : Selection) (htop : topIsSelection events = true) (h : Grounded events) :
    Grounded (replaceTop sel events) := by
  cases events with
  | nil => exact h
  | cons event events =>
    cases event with
    | selection top => exact h
    | changes last earlier generation => exact nomatch htop

theorem topIsSelection_append {older : List (HistEvent α)} (hne : events ≠ [])
    (h : topIsSelection (events ++ older) = true) : topIsSelection events = true := by
  obtain ⟨event, events, rfl⟩ := List.exists_cons_of_ne_nil hne
  cases event with
  | selection sel => rfl
  | changes last earlier generation => exact nomatch h

/-- Without the oldest event, where a selection is the next one. -/
theorem dropOldest {next oldest : HistEvent α} (hnext : next.isChange = false)
    (h : Grounded (events ++ [next, oldest])) : Grounded (events ++ [next]) := by
  induction events with
  | nil =>
    cases next with
    | selection sel => trivial
    | changes last earlier generation => exact nomatch hnext
  | cons event events ih =>
    cases event with
    | selection sel => exact ih h
    | changes last earlier generation =>
      have htop : topIsSelection ((events ++ [next]) ++ [oldest]) = true := by
        rw [List.append_assoc]
        exact h.1
      exact ⟨topIsSelection_append (List.append_ne_nil_of_right_ne_nil _ (List.cons_ne_nil _ _)) htop, ih h.2⟩

/-- Without the oldest events, where a change is the next one. -/
theorem dropChange {next oldest : HistEvent α} (hnext : next.isChange = true)
    (h : Grounded (events ++ [next, oldest])) : Grounded events := by
  induction events with
  | nil => trivial
  | cons event events ih =>
    cases event with
    | selection sel => exact ih h
    | changes last earlier generation =>
      refine ⟨topIsSelection_append (fun hnil => ?_) h.1, ih h.2⟩
      subst hnil
      cases next with
      | selection sel => exact nomatch hnext
      | changes last earlier generation => exact nomatch h.1

end Grounded

/-- The shifting ends well where the newest events are a selection and a change after it. -/
theorem shiftDone_grounded (undoDepth : ℕ) (h : Grounded events.reverse)
    (hnewest : events = [] ∨ ∃ older sel newest, newest.isChange = true ∧ events = older ++ [.selection sel, newest]) :
    ∃ events', shiftDone undoDepth events = some events' ∧ Grounded events'.reverse := by
  fun_induction shiftDone undoDepth events with
  | case1 => exact ⟨_, rfl, h⟩
  | case2 => exact ⟨_, rfl, h⟩
  | case3 event _ =>
    obtain hnil | ⟨older, sel, newest, -, hevents⟩ := hnewest
    · exact nomatch hnil
    · have hlength := congrArg List.length hevents
      rw [List.length_append, List.length_singleton] at hlength
      exact absurd hlength (by simp only [List.length_cons, List.length_nil]; omega)
  | case4 => exact ⟨_, rfl, h⟩
  | case5 event next events _ hnext ih =>
    rw [List.reverse_cons, List.reverse_cons, List.append_assoc] at h
    refine ih (h.dropChange hnext) ?_
    obtain hnil | ⟨older, sel, newest, hchange, hevents⟩ := hnewest
    · exact nomatch hnil
    · match older, hevents with
      | [], hevents =>
        simp only [List.nil_append, List.cons.injEq] at hevents
        exact .inl hevents.2.2
      | [_], hevents =>
        simp only [List.singleton_append, List.cons.injEq] at hevents
        rw [hevents.2.1] at hnext
        exact nomatch hnext
      | _ :: _ :: older, hevents =>
        simp only [List.cons_append, List.cons.injEq] at hevents
        exact .inr ⟨older, sel, newest, hchange, hevents.2.2⟩
  | case6 event next events _ hnext ih =>
    rw [List.reverse_cons, List.reverse_cons, List.append_assoc] at h
    rw [List.reverse_cons] at ih
    refine ih (h.dropOldest (Bool.eq_false_iff.2 hnext)) (.inr ?_)
    obtain hnil | ⟨older, sel, newest, hchange, hevents⟩ := hnewest
    · exact nomatch hnil
    · match older, hevents with
      | [], hevents =>
        simp only [List.nil_append, List.cons.injEq] at hevents
        rw [hevents.2.1] at hnext
        exact absurd hchange hnext
      | _ :: older, hevents =>
        simp only [List.cons_append, List.cons.injEq] at hevents
        exact ⟨older, sel, newest, hchange, hevents.2⟩

/-- A depth of two or more keeps the newest events. -/
theorem shiftDone_newest {undoDepth : ℕ} (hdepth : 2 ≤ undoDepth) {newest : HistEvent α}
    {older events' : List (HistEvent α)} (hevents : events = older ++ [.selection sel, newest])
    (h : shiftDone undoDepth events = some events') : ∃ older', events' = older' ++ [.selection sel, newest] := by
  fun_induction shiftDone undoDepth events generalizing older with
  | case1 => exact absurd hevents.symm (List.append_ne_nil_of_right_ne_nil _ (List.cons_ne_nil _ _))
  | case2 => exact ⟨older, (Option.some.inj h).symm.trans hevents⟩
  | case3 => exact nomatch h
  | case4 => exact ⟨older, (Option.some.inj h).symm.trans hevents⟩
  | case5 event next events hlength hnext ih =>
    match older, hevents with
    | [], hevents =>
      have htwo := congrArg List.length hevents
      simp only [List.length_cons, List.nil_append, List.length_nil] at htwo
      omega
    | [_], hevents =>
      simp only [List.singleton_append, List.cons.injEq] at hevents
      rw [hevents.2.1] at hnext
      exact nomatch hnext
    | _ :: _ :: older, hevents =>
      simp only [List.cons_append, List.cons.injEq] at hevents
      exact ih hevents.2.2 h
  | case6 event next events hlength hnext ih =>
    match older, hevents with
    | [], hevents =>
      have htwo := congrArg List.length hevents
      simp only [List.length_cons, List.nil_append, List.length_nil] at htwo
      omega
    | _ :: older, hevents =>
      simp only [List.cons_append, List.cons.injEq] at hevents
      exact ih hevents.2 h

end Grounded

/-- The event that a change is merged into leads to its version from the new text. -/
theorem mergeChange_back {generation : ℕ} (h : doc.Shows first texts) (hchange : change.In first texts)
    (hback : Back first version bound texts (.changes last earlier generation :: events)) :
    Back first version bound (change.apply first texts) (mergeChange doc last earlier change generation :: events) := by
  obtain ⟨⟨⟨hlast, hfull⟩, hrevert⟩, hgeneration, hrest⟩ := hback
  unfold mergeChange
  split
  · next hat =>
    obtain ⟨hempty, hstop⟩ := hat
    obtain ⟨hin, happly⟩ := lengthen_apply hlast hfull hchange (cmpPos_eq_zero.1 hempty).symm (cmpPos_eq_zero.1 hstop)
    refine ⟨⟨⟨hin, hfull⟩, ?_⟩, hgeneration, hrest⟩
    rwa [happly]
  · rw [historyChange_eq h hchange]
    exact ⟨RevertTo.invert hchange ⟨⟨hlast, hfull⟩, hrevert⟩, hgeneration, hrest⟩

end Stacks

section Actions

variable {s s' : EditState α}

/-- The document shows the version of its generation, and both stacks lead back from it. While a selection may
be joined by its origin, the top of `done` is one. -/
structure EditState.Inv (first : ℕ) (version : ℕ → List (List α)) (s : EditState α) : Prop where
  shows : s.doc.Shows first (version s.history.generation)
  sel : s.sel.In first (version s.history.generation)
  pos : 0 < s.history.generation
  le : s.history.generation ≤ s.history.maxGeneration
  done : Back first version s.history.maxGeneration (version s.history.generation) s.history.done
  undone : Back first version s.history.maxGeneration (version s.history.generation) s.history.undone
  doneGrounded : Grounded s.history.done
  undoneGrounded : Grounded s.history.undone
  origin : s.history.lastSelOrigin ≠ none → topIsSelection s.history.done = true

/-- What is asked of an action: changes and selections are of the document. An operation that has set a selection
sets another one only if that is still the top of `done` (where it redid a change in between, the change would be
lost), and takes none from the history. The history is cleared when nothing is undone. -/
def EditState.Allowed (s : EditState α) : EditAction α → Prop
  | .change _ change => s.doc.Takes change
  | .fromHistory call _ allowSelectionOnly => allowSelectionOnly = true → call.sameOp s.history.lastSelOp = false
  | .select call sel _ =>
    sel.In s.doc.first s.doc.texts ∧ (call.sameOp s.history.lastSelOp = true → topIsSelection s.history.done = true)
  | .clearHistory => s.history.generation = s.history.maxGeneration
  | _ => True

/-- The versions that there are stay. -/
structure EditState.Extends (s s' : EditState α) (version version' : ℕ → List (List α)) : Prop where
  same : ∀ generation ≤ s.history.maxGeneration, version' generation = version generation
  le : s.history.maxGeneration ≤ s'.history.maxGeneration

theorem EditState.Extends.of_le (h : s.history.maxGeneration ≤ s'.history.maxGeneration) :
    s.Extends s' version version := ⟨fun _ _ => rfl, h⟩

/-- The generations that undo leads to, that of the document, and those that redo leads to. -/
def EditState.timeline (s : EditState α) : List ℕ × ℕ × List ℕ :=
  (generations s.history.done, s.history.generation, generations s.history.undone)

/-- A selection is set where the top of `done` may be replaced. -/
theorem setSelection_inv (options : EditOptions α) (h : s.Inv first version)
    (hop : call.sameOp s.history.lastSelOp = true → topIsSelection s.history.done = true)
    (hsel : sel.In first (version s.history.generation)) (selOptions : Option SelOptions) :
    ∃ s', s.setSelection options call sel selOptions = some s' ∧ s'.Inv first version ∧
      s'.history.maxGeneration = s.history.maxGeneration ∧ s'.timeline = s.timeline := by
  unfold EditState.setSelection addSelectionToHistory
  rw [setSelectionNoUndo_in h.shows h.sel.primary hsel]
  simp only [Option.bind_some]
  generalize hmerged : (if call.sameOp s.history.lastSelOp = true then some true else _) = canBeMerged
  have hsome : ∃ merged, canBeMerged = some merged ∧ (merged = true → topIsSelection s.history.done = true) := by
    rw [← hmerged]
    split
    · next hsame => exact ⟨true, rfl, fun _ => hop hsame⟩
    · split
      · next horigin =>
        simp only [Bool.and_eq_true, beq_iff_eq] at horigin
        have htop : topIsSelection s.history.done = true := by
          refine h.origin fun hnone => ?_
          rw [← horigin.2, hnone] at horigin
          exact nomatch horigin.1.1
        split
        · exact ⟨true, rfl, fun _ => htop⟩
        · unfold selectionEventCanBeMerged
          split
          · exact ⟨true, rfl, fun _ => htop⟩
          · split
            · split
              · exact ⟨_, rfl, fun _ => htop⟩
              · next hnone =>
                obtain ⟨prev, older, hprev⟩ := exists_selection htop
                exact absurd hprev (hnone prev older)
            · exact ⟨false, rfl, fun htrue => nomatch htrue⟩
      · exact ⟨false, rfl, fun htrue => nomatch htrue⟩
  obtain ⟨merged, rfl, htop⟩ := hsome
  have hundone : Back first version s.history.maxGeneration (version s.history.generation)
        (if selOptions.any SelOptions.clearRedo = true then clearSelectionEvents s.history.undone
          else s.history.undone) ∧
      Grounded (if selOptions.any SelOptions.clearRedo = true then clearSelectionEvents s.history.undone
        else s.history.undone) ∧
      generations (if selOptions.any SelOptions.clearRedo = true then clearSelectionEvents s.history.undone
        else s.history.undone) = generations s.history.undone := by
    split
    · exact ⟨h.undone.clearSelections, h.undoneGrounded.clearSelections, generations_clearSelections _⟩
    · exact ⟨h.undone, h.undoneGrounded, rfl⟩
  obtain ⟨hback, hgrounded, hredo⟩ := hundone
  cases merged with
  | true =>
    exact ⟨_, rfl, ⟨h.shows, hsel, h.pos, h.le, h.done.setTop hsel (htop rfl), hback,
      h.doneGrounded.setTop sel (htop rfl), hgrounded, fun _ => topIsSelection_replaceTop sel (htop rfl)⟩, rfl,
      Prod.ext (generations_replaceTop sel (htop rfl)) (Prod.ext rfl hredo)⟩
  | false =>
    exact ⟨_, rfl, ⟨h.shows, hsel, h.pos, h.le, h.done.pushSelection hsel, hback, h.doneGrounded.pushSelection sel,
      hgrounded, fun _ => topIsSelection_pushSelection sel _⟩, rfl,
      Prod.ext (generations_pushSelection sel _) (Prod.ext rfl hredo)⟩

/-- The change joins the last event: it may, and there is one. -/
def joinsLastEvent (options : EditOptions α) (call : EditCall) (hist : History α) (change : Change α) : Bool :=
  changeCanBeMerged options call hist change &&
    (lastChangeEvent hist.done (call.sameOp hist.lastOp)).head?.any HistEvent.isChange

/-- What a change adds to the history leads back from the new text. -/
theorem addChangeToHistory_back (options : EditOptions α) (call : EditCall) (h : s.Inv first version)
    (hchange : change.In first (version s.history.generation)) (sel : Selection) :
    ∃ hist done, addChangeToHistory options call s change sel = some hist ∧ hist.done = .selection sel :: done ∧
      hist.undone = [] ∧ hist.generation = s.history.maxGeneration + 1 ∧
      hist.maxGeneration = s.history.maxGeneration + 1 ∧ Grounded done ∧
      Back first version s.history.maxGeneration (change.apply first (version s.history.generation)) done ∧
      (joinsLastEvent options call s.history change = false → (∀ undoDepth ∈ s.history.undoDepth, 2 ≤ undoDepth) →
        ∃ older, generations done = s.history.generation :: older) := by
  unfold addChangeToHistory joinsLastEvent
  simp only
  generalize changeCanBeMerged options call s.history change = canBeMerged
  generalize hdone : (if canBeMerged = true then _ else s.history.done) = done
  have hback : Back first version s.history.maxGeneration (version s.history.generation) done := by
    rw [← hdone]
    split
    · exact h.done.lastChange _
    · exact h.done
  have hgrounded : Grounded done := by
    rw [← hdone]
    split
    · exact h.doneGrounded.lastChange _
    · exact h.doneGrounded
  split
  · refine ⟨_, _, rfl, rfl, rfl, rfl, rfl, ?_, mergeChange_back h.shows hchange hback, fun hno => ?_⟩
    · unfold mergeChange
      split <;> exact hgrounded
    · rw [if_pos rfl] at hdone
      rw [hdone] at hno
      cases hno
  · generalize hbefore : (if (done.head?.map HistEvent.isChange).getD true = true then pushSelectionToHistory s.sel done
      else done) = before
    have hbefore' : Back first version s.history.maxGeneration (version s.history.generation) before := by
      rw [← hbefore]
      split
      · exact hback.pushSelection h.sel
      · exact hback
    have htop : topIsSelection before = true := by
      rw [← hbefore]
      split
      · exact topIsSelection_pushSelection s.sel done
      · next hnot =>
        revert hnot
        rcases done with _ | ⟨_ | _, events⟩
        · exact fun hnot => absurd rfl hnot
        · exact fun hnot => absurd rfl hnot
        · exact fun _ => rfl
    have hgrounded' : Grounded before := by
      rw [← hbefore]
      split
      · exact hgrounded.pushSelection s.sel
      · exact hgrounded
    have hnew : Back first version s.history.maxGeneration (change.apply first (version s.history.generation))
        (.changes (historyChangeFromChange s.doc change) [] s.history.generation :: before) := by
      rw [historyChange_eq h.shows hchange]
      exact ⟨RevertTo.invert hchange rfl, ⟨h.pos, h.le⟩, hbefore'⟩
    obtain ⟨top, events, rfl⟩ := exists_selection htop
    split
    · exact ⟨_, _, rfl, rfl, rfl, rfl, rfl, ⟨rfl, hgrounded'⟩, hnew, fun _ _ => ⟨_, rfl⟩⟩
    · next undoDepth hundoDepth =>
      have hreverse : Grounded (HistEvent.changes (historyChangeFromChange s.doc change) [] s.history.generation ::
          .selection top :: events).reverse.reverse := by
        rw [List.reverse_reverse]
        exact ⟨rfl, hgrounded'⟩
      have hnewest : (HistEvent.changes (historyChangeFromChange s.doc change) [] s.history.generation ::
          .selection top :: events).reverse = events.reverse ++
            [.selection top, .changes (historyChangeFromChange s.doc change) [] s.history.generation] := by
        rw [List.reverse_cons, List.reverse_cons, List.append_assoc]
        rfl
      obtain ⟨older, holder, hgroundedOlder⟩ := shiftDone_grounded undoDepth hreverse
        (.inr ⟨events.reverse, top, _, rfl, hnewest⟩)
      rw [holder]
      refine ⟨_, _, rfl, rfl, rfl, rfl, rfl, hgroundedOlder, ?_, fun _ hdepth => ?_⟩
      · obtain ⟨dropped, hdropped⟩ := shiftDone_suffix holder
        rw [← List.reverse_reverse (_ :: _ :: events), ← hdropped, List.reverse_append] at hnew
        exact hnew.front
      · obtain ⟨oldest, rfl⟩ := shiftDone_newest (hdepth undoDepth hundoDepth) hnewest holder
        rw [List.reverse_append]
        exact ⟨_, rfl⟩

theorem makeChange_inv (options : EditOptions α) (call : EditCall) (h : s.Inv first version)
    (hchange : change.In first (version s.history.generation)) :
    ∃ s' version', s.makeChange options call change = some s' ∧ s'.Inv first version' ∧
      s.Extends s' version version' ∧ (change.isNothing = false →
        joinsLastEvent options call s.history change = false → (∀ undoDepth ∈ s.history.undoDepth, 2 ≤ undoDepth) →
          ∃ older, generations s'.history.done = s.history.generation :: older) := by
  unfold EditState.makeChange
  split
  · next hnothing =>
    exact ⟨s, version, rfl, h, .of_le le_rfl, fun hno => nomatch hno.symm.trans hnothing⟩
  · obtain ⟨hist, done, hhist, hdone, hundone, hgeneration, hmax, hgrounded, hback, hown⟩ :=
      addChangeToHistory_back options call h hchange (s.sel.afterChange change)
    have hafter := afterChange_in hchange h.sel
    obtain ⟨made, hmade, hshows, hhistory, hsel⟩ := makeChangeSingleDoc_shows options
      (s := { s with history := hist }) h.shows hchange h.sel (by rintro sel ⟨⟩; exact hafter :
        ∀ sel ∈ some (s.sel.afterChange change), sel.In first (change.apply first (version s.history.generation)))
    -- the new generation has the new text
    have hold : ∀ generation ≤ s.history.maxGeneration, Function.update version (s.history.maxGeneration + 1)
        (change.apply first (version s.history.generation)) generation = version generation :=
      fun generation hle => Function.update_of_ne (by omega) _ _
    have hnew : Function.update version (s.history.maxGeneration + 1)
        (change.apply first (version s.history.generation)) made.history.generation =
          change.apply first (version s.history.generation) := by
      rw [hhistory, hgeneration, Function.update_self]
    refine ⟨made, Function.update version (s.history.maxGeneration + 1)
      (change.apply first (version s.history.generation)), ?_, ?_, ⟨hold, ?_⟩, fun _ hno hdepth => ?_⟩
    · simp only [hhist, Option.bind_some]
      exact hmade
    · refine ⟨?_, ?_, ?_, ?_, ?_, ?_, ?_, ?_, fun _ => ?_⟩
      · rwa [hnew]
      · rwa [hnew]
      · rw [hhistory, hgeneration]
        exact Nat.succ_pos _
      · rw [hhistory, hgeneration, hmax]
      · rw [hnew, hhistory, hdone, hmax]
        exact ⟨hafter, hback.frame hold (Nat.le_succ _)⟩
      · rw [hhistory, hundone]
        trivial
      · rw [hhistory, hdone]
        exact hgrounded
      · rw [hhistory, hundone]
        trivial
      · rw [hhistory, hdone]
        rfl
    · rw [hhistory, hmax]
      exact Nat.le_succ _
    · rw [hhistory, hdone]
      exact hown hno hdepth

/-- An event is taken back: its generation is that of the document again, and the event on the other stack leads
back to the generation there was. -/
theorem revertEvent_inv (options : EditOptions α) (type : HistType) {generation : ℕ} {selAfter : Selection}
    (h : s.Inv first version) (hafter : selAfter.In first (version s.history.generation))
    (horigin : s.history.lastSelOrigin = none)
    (hsource : Back first version s.history.maxGeneration (version s.history.generation)
      (.changes last earlier generation :: source))
    (hdest : Back first version s.history.maxGeneration (version s.history.generation) dest)
    (hsourceGrounded : Grounded (.changes last earlier generation :: source)) (hdestGrounded : Grounded dest) :
    ∃ s', s.revertEvent options type last earlier generation source dest selAfter = some s' ∧ s'.Inv first version ∧
      s'.history.maxGeneration = s.history.maxGeneration ∧ s'.history.generation = generation ∧
      generations (s'.history.source type) = generations source ∧
      generations (s'.history.dest type) = s.history.generation :: generations dest := by
  obtain ⟨hevent, ⟨hpos, hle⟩, hrest⟩ := hsource
  obtain ⟨htop, hrestGrounded⟩ := hsourceGrounded
  obtain ⟨sel, older, rfl⟩ := exists_selection htop
  have hnone : RevertTo first (version s.history.generation) [] (version s.history.generation) := rfl
  obtain ⟨made, antiLast, antiEarlier, hmade, hshows, -, hsel, hanti⟩ := revertChanges_spec options h.shows h.sel hevent
    (by rintro top ⟨⟩; exact hrest.1 : ∀ top ∈ some sel, top.In first (version generation)) hnone
  have hback : Back first version s.history.maxGeneration (version generation)
      (.changes antiLast antiEarlier s.history.generation :: pushSelectionToHistory selAfter dest) :=
    ⟨hanti, ⟨h.pos, h.le⟩, hdest.pushSelection hafter⟩
  have hgrounded : Grounded
      (.changes antiLast antiEarlier s.history.generation :: pushSelectionToHistory selAfter dest) :=
    ⟨topIsSelection_pushSelection selAfter dest, hdestGrounded.pushSelection selAfter⟩
  have hpushed : generations
      (.changes antiLast antiEarlier s.history.generation :: pushSelectionToHistory selAfter dest) =
        s.history.generation :: generations dest :=
    congrArg (s.history.generation :: ·) (generations_pushSelection selAfter dest)
  unfold EditState.revertEvent
  simp only [Option.bind_some, hmade, Option.map_some, if_neg hpos.ne']
  refine ⟨_, rfl, ?_⟩
  cases type with
  | undo =>
    exact ⟨⟨hshows, hsel, hpos, hle, hrest, hback, hrestGrounded, hgrounded, fun hsome => absurd horigin hsome⟩, rfl,
      rfl, rfl, hpushed⟩
  | redo =>
    exact ⟨⟨hshows, hsel, hpos, hle, hback, hrest, hgrounded, hrestGrounded, fun hsome => absurd horigin hsome⟩, rfl,
      rfl, rfl, hpushed⟩

theorem setStacks_inv (h : s.Inv first version) (horigin : s.history.lastSelOrigin = none)
    (hsource : Back first version s.history.maxGeneration (version s.history.generation) source)
    (hdest : Back first version s.history.maxGeneration (version s.history.generation) dest)
    (hsourceGrounded : Grounded source) (hdestGrounded : Grounded dest) (type : HistType) :
    ({ s with history := s.history.setStacks source dest type } : EditState α).Inv first version := by
  cases type with
  | undo =>
    exact ⟨h.shows, h.sel, h.pos, h.le, hsource, hdest, hsourceGrounded, hdestGrounded,
      fun hsome => absurd horigin hsome⟩
  | redo =>
    exact ⟨h.shows, h.sel, h.pos, h.le, hdest, hsource, hdestGrounded, hsourceGrounded,
      fun hsome => absurd horigin hsome⟩

/-- The loop over the events ends at one that can be used. -/
theorem popEvents_inv (options : EditOptions α) (type : HistType) {allowSelectionOnly : Bool} {selAfter : Selection}
    (h : s.Inv first version) (hafter : selAfter.In first (version s.history.generation))
    (horigin : s.history.lastSelOrigin = none)
    (hop : allowSelectionOnly = true → call.sameOp s.history.lastSelOp = false)
    (hsource : Back first version s.history.maxGeneration (version s.history.generation) source)
    (hdest : Back first version s.history.maxGeneration (version s.history.generation) dest)
    (hsourceGrounded : Grounded source) (hdestGrounded : Grounded dest)
    (husable : ∃ event ∈ source, s.usable allowSelectionOnly event = true) :
    ∃ s', s.popEvents options call type allowSelectionOnly source dest selAfter = some s' ∧ s'.Inv first version ∧
      s'.history.maxGeneration = s.history.maxGeneration ∧ (allowSelectionOnly = false →
        generations source = s'.history.generation :: generations (s'.history.source type) ∧
        generations (s'.history.dest type) = s.history.generation :: generations dest) := by
  induction source generalizing dest selAfter with
  | nil =>
    obtain ⟨event, hevent, -⟩ := husable
    exact nomatch hevent
  | cons event source ih =>
    cases event with
    | changes last earlier generation =>
      obtain ⟨s', hs', hinv, hmax, hgeneration, hbelow, hpushed⟩ :=
        revertEvent_inv options type h hafter horigin hsource hdest hsourceGrounded hdestGrounded
      refine ⟨s', hs', hinv, hmax, fun _ => ⟨?_, hpushed⟩⟩
      rw [hgeneration, hbelow]
      rfl
    | selection event =>
      unfold EditState.popEvents
      simp only
      split
      · next hselect =>
        have hbelow : Back first version s.history.maxGeneration (version s.history.generation) source := hsource.2
        have hset := setStacks_inv h horigin hbelow (hdest.pushSelection hsource.1) hsourceGrounded
          (hdestGrounded.pushSelection event) type
        have hnot : call.sameOp (s.history.setStacks source (pushSelectionToHistory event dest) type).lastSelOp =
            false := by
          cases type with
          | undo => exact hop hselect.1
          | redo => exact hop hselect.1
        have hevent : event.In first
            (version (s.history.setStacks source (pushSelectionToHistory event dest) type).generation) := by
          cases type with
          | undo => exact hsource.1
          | redo => exact hsource.1
        obtain ⟨s', hs', hinv, hmax, -⟩ := setSelection_inv options hset (fun hsame => nomatch hsame.symm.trans hnot)
          hevent (some { clearRedo := false })
        refine ⟨s', hs', hinv, ?_, fun hall => nomatch hall.symm.trans hselect.1⟩
        cases type with
        | undo => exact hmax
        | redo => exact hmax
      · next hselect =>
        have hused : ∃ used ∈ source, s.usable allowSelectionOnly used = true := by
          obtain ⟨used, hused, hcan⟩ := husable
          rcases List.mem_cons.1 hused with rfl | hbelow
          · simp only [EditState.usable, Bool.and_eq_true, decide_eq_true_eq] at hcan
            exact absurd hcan hselect
          · exact ⟨used, hbelow, hcan⟩
        have hrest := ih hsource.1 hsource.2 (hdest.pushSelection hsource.1) hsourceGrounded
          (hdestGrounded.pushSelection event) hused
        rwa [generations_pushSelection] at hrest

theorem makeChangeFromHistory_inv (options : EditOptions α) (type : HistType) {allowSelectionOnly : Bool}
    (h : s.Inv first version) (hop : allowSelectionOnly = true → call.sameOp s.history.lastSelOp = false) :
    ∃ s', s.makeChangeFromHistory options call type allowSelectionOnly = some s' ∧ s'.Inv first version ∧
      s'.history.maxGeneration = s.history.maxGeneration ∧ (allowSelectionOnly = false →
        generations (s.history.source type) = [] ∧ s' = s ∨
        generations (s.history.source type) = s'.history.generation :: generations (s'.history.source type) ∧
          generations (s'.history.dest type) = s.history.generation :: generations (s.history.dest type)) := by
  unfold EditState.makeChangeFromHistory
  split
  · next husable =>
    have hreset : ({ s with history := { s.history with lastOrigin := none, lastSelOrigin := none } } :
        EditState α).Inv first version :=
      ⟨h.shows, h.sel, h.pos, h.le, h.done, h.undone, h.doneGrounded, h.undoneGrounded, fun hsome => absurd rfl hsome⟩
    have hused := List.any_eq_true.1 husable
    cases type with
    | undo =>
      obtain ⟨s', hs', hinv, hmax, hmoved⟩ :=
        popEvents_inv options .undo hreset h.sel rfl hop h.done h.undone h.doneGrounded h.undoneGrounded hused
      exact ⟨s', hs', hinv, hmax, fun hall => .inr (hmoved hall)⟩
    | redo =>
      obtain ⟨s', hs', hinv, hmax, hmoved⟩ :=
        popEvents_inv options .redo hreset h.sel rfl hop h.undone h.done h.undoneGrounded h.doneGrounded hused
      exact ⟨s', hs', hinv, hmax, fun hall => .inr (hmoved hall)⟩
  · next hnot =>
    refine ⟨s, rfl, h, rfl, fun hall => .inl ⟨?_, rfl⟩⟩
    subst hall
    rw [← List.length_eq_zero_iff, length_generations, List.countP_eq_zero]
    intro event hevent hchange
    refine hnot (List.any_eq_true.2 ⟨event, hevent, ?_⟩)
    cases event with
    | changes last earlier generation => rfl
    | selection sel => exact nomatch hchange

/-- Every action can be made, and keeps the invariant and the versions that there are. -/
theorem act_inv (options : EditOptions α) {action : EditAction α} (h : s.Inv first version)
    (hallowed : s.Allowed action) :
    ∃ s' version', s.act options action = some s' ∧ s'.Inv first version' ∧ s.Extends s' version version' := by
  cases action with
  | change call change =>
    have htakes : change.In s.doc.first s.doc.texts := hallowed
    rw [h.shows.first, show s.doc.texts = _ from h.shows.texts] at htakes
    obtain ⟨s', version', hs', hinv, hextends, -⟩ := makeChange_inv options call h htakes
    exact ⟨s', version', hs', hinv, hextends⟩
  | fromHistory call type allowSelectionOnly =>
    obtain ⟨s', hs', hinv, hmax, -⟩ := makeChangeFromHistory_inv options type h hallowed
    exact ⟨s', version, hs', hinv, .of_le hmax.ge⟩
  | select call sel selOptions =>
    obtain ⟨hsel, hop⟩ := hallowed
    rw [h.shows.first, show s.doc.texts = _ from h.shows.texts] at hsel
    obtain ⟨s', hs', hinv, hmax, -⟩ := setSelection_inv options h hop hsel selOptions
    exact ⟨s', version, hs', hinv, .of_le hmax.ge⟩
  | setUndoDepth undoDepth =>
    exact ⟨_, version, rfl,
      ⟨h.shows, h.sel, h.pos, h.le, h.done, h.undone, h.doneGrounded, h.undoneGrounded, h.origin⟩, .of_le le_rfl⟩
  | clearHistory =>
    have hsame : s.history.generation = s.history.maxGeneration := hallowed
    have hmax : s.history.maxGeneration ≠ 0 := hsame ▸ h.pos.ne'
    have hnew : (History.new s.history.maxGeneration : History α).generation = s.history.maxGeneration := if_neg hmax
    have hbound : (History.new s.history.maxGeneration : History α).maxGeneration = s.history.maxGeneration :=
      if_neg hmax
    refine ⟨_, version, rfl, ⟨?_, ?_, ?_, ?_, trivial, trivial, trivial, trivial, fun hsome => absurd rfl hsome⟩,
      .of_le hbound.ge⟩
    · show s.doc.Shows first (version (History.new s.history.maxGeneration : History α).generation)
      rw [hnew, ← hsame]
      exact h.shows
    · show s.sel.In first (version (History.new s.history.maxGeneration : History α).generation)
      rw [hnew, ← hsame]
      exact h.sel
    · show 0 < (History.new s.history.maxGeneration : History α).generation
      rw [hnew]
      exact Nat.pos_of_ne_zero hmax
    · exact (hnew.trans hbound.symm).le
  | markClean =>
    exact ⟨_, version, rfl,
      ⟨h.shows, h.sel, h.pos, h.le, h.done, h.undone, h.doneGrounded, h.undoneGrounded, h.origin⟩, .of_le le_rfl⟩

end Actions

end StudyTech
