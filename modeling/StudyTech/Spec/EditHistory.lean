import StudyTech.Spec.EditSelection

/-!
# The history of an editor

The stacks of events with which changes are undone and redone, and the generations with which an editor knows
whether it is clean. A stack is a list with its top first, and so are the changes of an event. A call knows the
operation it is part of (a document without an editor has none) and the time. Handlers that cancel or filter
changes and selections, suppressed edits, marked spans and linked documents are left out. `none` is a `TypeError`,
or the error for a line that is not there.
-/

namespace StudyTech

variable {α : Type}

/-- An event of the history: changes, which are never none, or a selection. -/
inductive HistEvent (α : Type) where
  | changes (last : Change α) (earlier : List (Change α)) (generation : ℕ)
  | selection (sel : Selection)
  deriving DecidableEq, Repr

def HistEvent.isChange : HistEvent α → Bool
  | .changes .. => true
  | .selection _ => false

/-- The operation that a call is part of, and when it is made. -/
structure EditCall where
  opId : Option ℕ := none
  time : ℤ
  deriving DecidableEq, Repr

/-- `opId == last`, where `NaN` and `null` are equal to nothing. -/
def EditCall.sameOp (call : EditCall) (last : Option ℕ) : Bool := call.opId.isSome && call.opId == last

structure EditOptions (α : Type) extends DocOptions α where
  historyEventDelay : ℤ := 1250

/-- `History`; an `undoDepth` of `none` is `Infinity`. -/
structure History (α : Type) where
  done : List (HistEvent α) := []
  undone : List (HistEvent α) := []
  undoDepth : Option ℕ := none
  lastModTime : ℤ := 0
  lastSelTime : ℤ := 0
  lastOp : Option ℕ := none
  lastSelOp : Option ℕ := none
  lastOrigin : Option String := none
  lastSelOrigin : Option String := none
  generation : ℕ
  maxGeneration : ℕ
  deriving DecidableEq, Repr

/-- `historySize()`: what can be undone, and redone. -/
def History.size (hist : History α) : ℕ × ℕ :=
  (hist.done.countP HistEvent.isChange, hist.undone.countP HistEvent.isChange)

/-- `new History(startGen)`. -/
def History.new (startGen : ℕ) : History α :=
  let generation := if startGen = 0 then 1 else startGen
  { generation := generation, maxGeneration := generation }

/-- The part of a document that changes, selections, undo and redo are about. -/
structure EditState (α : Type) where
  doc : Doc α
  sel : Selection
  history : History α

/-- `origin.charAt(0) == c`. -/
def originStarts (c : Char) (origin : Option String) : Bool := origin.any fun s => s.toList.head? == some c

section Stacks

/-- `pushSelectionToHistory`. -/
def pushSelectionToHistory (sel : Selection) : List (HistEvent α) → List (HistEvent α)
  | .selection top :: dest => if top = sel then .selection top :: dest else .selection sel :: .selection top :: dest
  | dest => .selection sel :: dest

/-- `clearSelectionEvents`. -/
def clearSelectionEvents : List (HistEvent α) → List (HistEvent α)
  | .selection _ :: events => clearSelectionEvents events
  | events => events

/-- `lastChangeEvent`: what is left of `done`. The event is its top if that is a change. -/
def lastChangeEvent (done : List (HistEvent α)) (force : Bool) : List (HistEvent α) :=
  if force then clearSelectionEvents done
  else
    match done with
    | .selection _ :: .changes last earlier generation :: events => .changes last earlier generation :: events
    | done => done

/-- The loop that shifts the oldest events away; here the oldest is the first. -/
def shiftDone (undoDepth : ℕ) : List (HistEvent α) → Option (List (HistEvent α))
  | [] => some []
  | [event] => if 1 ≤ undoDepth then some [event] else none
  | event :: next :: events =>
    if events.length + 2 ≤ undoDepth then some (event :: next :: events)
    else if next.isChange then shiftDone undoDepth events
    else shiftDone undoDepth (next :: events)

/-- `hist.done[hist.done.length - 1] = sel`, which on an empty array adds no event. -/
def replaceTop (sel : Selection) : List (HistEvent α) → List (HistEvent α)
  | [] => []
  | _ :: events => .selection sel :: events

end Stacks

section Events

variable (options : EditOptions α) (call : EditCall)

/-- `historyChangeFromChange`. -/
def historyChangeFromChange (doc : Doc α) (change : Change α) : Change α :=
  { start := change.start, stop := changeEnd change, text := getBetween doc change.start change.stop }

/-- A change that joins the changes of an event: an insertion behind the last one makes that longer. -/
def mergeChange (doc : Doc α) (last : Change α) (earlier : List (Change α)) (change : Change α) (generation : ℕ) :
    HistEvent α :=
  if cmpPos change.start change.stop = 0 ∧ cmpPos change.start last.stop = 0 then
    .changes { last with stop := changeEnd change } earlier generation
  else .changes (historyChangeFromChange doc change) (last :: earlier) generation

/-- Whether a change may join the last event. -/
def changeCanBeMerged (hist : History α) (change : Change α) : Bool :=
  call.sameOp hist.lastOp || hist.lastOrigin == change.origin &&
    (originStarts '+' change.origin && call.opId.isSome &&
      decide (call.time - options.historyEventDelay < hist.lastModTime) || originStarts '*' change.origin)

/-- `addChangeToHistory`. -/
def addChangeToHistory (s : EditState α) (change : Change α) (selAfter : Selection) : Option (History α) :=
  let hist := s.history
  let canBeMerged := changeCanBeMerged options call hist change
  let done := if canBeMerged then lastChangeEvent hist.done (call.sameOp hist.lastOp) else hist.done
  let added :=
    match canBeMerged, done with
    | true, .changes last earlier generation :: events =>
      some (mergeChange s.doc last earlier change generation :: events)
    | _, done =>
      let before := if (done.head?.map HistEvent.isChange).getD true then pushSelectionToHistory s.sel done else done
      let done := HistEvent.changes (historyChangeFromChange s.doc change) [] hist.generation :: before
      match hist.undoDepth with
      | none => some done
      | some undoDepth => (shiftDone undoDepth done.reverse).map List.reverse
  added.map fun done =>
    { hist with
      done := .selection selAfter :: done
      undone := []
      generation := hist.maxGeneration + 1
      maxGeneration := hist.maxGeneration + 1
      lastModTime := call.time
      lastSelTime := call.time
      lastOp := call.opId
      lastSelOp := call.opId
      lastOrigin := change.origin
      lastSelOrigin := change.origin }

/-- `selectionEventCanBeMerged`. -/
def selectionEventCanBeMerged (hist : History α) (origin : Option String) (sel : Selection) : Option Bool :=
  if originStarts '*' origin then some true
  else if originStarts '+' origin then
    match hist.done with
    | .selection prev :: _ =>
      some (prev.ranges.length == sel.ranges.length && prev.somethingSelected == sel.somethingSelected &&
        decide (call.time - hist.lastSelTime ≤ if call.opId.isSome then options.historyEventDelay else 500))
    | _ => none
  else some false

/-- The options of a selection. -/
structure SelOptions where
  origin : Option String := none
  clearRedo : Bool := true

/-- `addSelectionToHistory`. -/
def addSelectionToHistory (hist : History α) (sel : Selection) (selOptions : Option SelOptions) :
    Option (History α) :=
  let origin := selOptions.bind SelOptions.origin
  let canBeMerged :=
    if call.sameOp hist.lastSelOp then some true
    else if origin.isSome && origin != some "" && hist.lastSelOrigin == origin then
      if hist.lastModTime == hist.lastSelTime && hist.lastOrigin == origin then some true
      else selectionEventCanBeMerged options call hist origin sel
    else some false
  canBeMerged.map fun merged =>
    { hist with
      done := if merged then replaceTop sel hist.done else pushSelectionToHistory sel hist.done
      undone := if selOptions.any SelOptions.clearRedo then clearSelectionEvents hist.undone else hist.undone
      lastSelTime := call.time
      lastSelOrigin := origin
      lastSelOp := call.opId }

end Events

/-- Nothing is put in place of nothing. -/
def Change.isNothing (change : Change α) : Bool :=
  change.text.length == 1 && (change.text.headD []).isEmpty && cmpPos change.start change.stop == 0

namespace EditState

variable (options : EditOptions α) (call : EditCall)

/-- `setSelectionNoUndo`: the primary ranges are compared, and the line of each position is read. -/
def setSelectionNoUndo (s : EditState α) (sel : Selection) : Option (EditState α) :=
  let isLine (pos : Pos) := (s.doc.getLine pos.line).isSome
  if sel.primary.isSome && s.sel.primary.isSome && sel.ranges.all fun r => isLine r.anchor && isLine r.head then
    some { s with sel := sel }
  else none

/-- `setSelection`. -/
def setSelection (s : EditState α) (sel : Selection) (selOptions : Option SelOptions) : Option (EditState α) :=
  (s.setSelectionNoUndo sel).bind fun s =>
    (addSelectionToHistory options call s.history s.sel selOptions).map fun history => { s with history := history }

/-- `makeChangeSingleDoc` of a change in the document. -/
def makeChangeSingleDoc (s : EditState α) (change : Change α) (selAfter : Option Selection) : Option (EditState α) :=
  (updateDoc options.toDocOptions s.doc change).bind fun doc =>
    EditState.setSelectionNoUndo { s with doc := doc } (selAfter.getD (s.sel.afterChange change))

/-- `makeChangeInner`. -/
def makeChange (s : EditState α) (change : Change α) : Option (EditState α) :=
  if change.isNothing then some s
  else
    let selAfter := s.sel.afterChange change
    (addChangeToHistory options call s change selAfter).bind fun history =>
      makeChangeSingleDoc options { s with history := history } change (some selAfter)

/-- The loop of `makeChangeFromHistory` over the changes of an event, with the changes that take them back;
`before` is the selection that the last of them leads to. -/
def revertChanges (before : Option Selection) :
    Change α → List (Change α) → EditState α → List (Change α) → Option (EditState α × Change α × List (Change α))
  | change, [], s, antiChanges =>
    (s.makeChangeSingleDoc options change before).map fun s' => (s', historyChangeFromChange s.doc change, antiChanges)
  | change, next :: earlier, s, antiChanges =>
    (s.makeChangeSingleDoc options change (some (s.sel.afterChange change))).bind fun s' =>
      revertChanges before next earlier s' (historyChangeFromChange s.doc change :: antiChanges)

end EditState

/-- `"undo"` or `"redo"`. -/
inductive HistType where
  | undo
  | redo
  deriving DecidableEq, Repr

namespace History

def source (hist : History α) : HistType → List (HistEvent α)
  | .undo => hist.done
  | .redo => hist.undone

def dest (hist : History α) : HistType → List (HistEvent α)
  | .undo => hist.undone
  | .redo => hist.done

def setStacks (hist : History α) (source dest : List (HistEvent α)) : HistType → History α
  | .undo => { hist with done := source, undone := dest }
  | .redo => { hist with done := dest, undone := source }

end History

namespace EditState

variable (options : EditOptions α) (call : EditCall) (type : HistType) (allowSelectionOnly : Bool)

/-- What `makeChangeFromHistory` does with a change event: `source` is what is below it. -/
def revertEvent (s : EditState α) (last : Change α) (earlier : List (Change α)) (generation : ℕ)
    (source dest : List (HistEvent α)) (selAfter : Selection) : Option (EditState α) :=
  let hist := s.history
  let before :=
    match source with
    | [] => some none
    | .selection sel :: _ => some (some sel)
    | .changes .. :: _ => none
  before.bind fun before => (s.revertChanges options before last earlier []).map fun (s', antiLast, antiEarlier) =>
    let anti := HistEvent.changes antiLast antiEarlier hist.generation
    let hist := hist.setStacks source (anti :: pushSelectionToHistory selAfter dest) type
    let maxGeneration := if generation = 0 then hist.maxGeneration + 1 else hist.maxGeneration
    { s' with history :=
        { hist with
          generation := if generation = 0 then maxGeneration else generation
          maxGeneration := maxGeneration } }

/-- The loop of `makeChangeFromHistory` that pops selections, up to a change or to a selection that is another. -/
def popEvents (s : EditState α) : List (HistEvent α) → List (HistEvent α) → Selection → Option (EditState α)
  | [], _, _ => none
  | .selection event :: source, dest, _ =>
    let dest := pushSelectionToHistory event dest
    if allowSelectionOnly ∧ event ≠ s.sel then
      EditState.setSelection options call { s with history := s.history.setStacks source dest type } event
        (some { clearRedo := false })
    else popEvents s source dest event
  | .changes last earlier generation :: source, dest, selAfter =>
    s.revertEvent options type last earlier generation source dest selAfter

/-- An event with which something is undone. -/
def usable (s : EditState α) : HistEvent α → Bool
  | .changes .. => !allowSelectionOnly
  | .selection sel => allowSelectionOnly && decide (sel ≠ s.sel)

/-- `makeChangeFromHistory`. -/
def makeChangeFromHistory (s : EditState α) : Option (EditState α) :=
  if (s.history.source type).any (s.usable allowSelectionOnly) then
    let hist := { s.history with lastOrigin := none, lastSelOrigin := none }
    popEvents options call type allowSelectionOnly { s with history := hist } (hist.source type) (hist.dest type) s.sel
  else some s

end EditState

structure Editor (α : Type) extends EditState α where
  cleanGeneration : ℕ := 1

/-- What is done with an editor. -/
inductive EditAction (α : Type) where
  | change (call : EditCall) (change : Change α)
  | fromHistory (call : EditCall) (type : HistType) (allowSelectionOnly : Bool)
  | select (call : EditCall) (sel : Selection) (selOptions : Option SelOptions)
  | setUndoDepth (undoDepth : ℕ)
  | clearHistory
  | markClean

/-- `changeGeneration(true)`. -/
def History.forceSplit (hist : History α) : History α :=
  { hist with lastOp := none, lastSelOp := none, lastOrigin := none }

/-- The actions that leave `cleanGeneration` alone. -/
def EditState.act (options : EditOptions α) (s : EditState α) : EditAction α → Option (EditState α)
  | .change call change => s.makeChange options call change
  | .fromHistory call type allowSelectionOnly => s.makeChangeFromHistory options call type allowSelectionOnly
  | .select call sel selOptions => s.setSelection options call sel selOptions
  | .setUndoDepth undoDepth => some { s with history := { s.history with undoDepth := some undoDepth } }
  | .clearHistory => some { s with history := History.new s.history.maxGeneration }
  | .markClean => some { s with history := s.history.forceSplit }

/-- `markClean` remembers the generation. -/
def Editor.remember (ed : Editor α) : EditAction α → ℕ
  | .markClean => ed.history.generation
  | _ => ed.cleanGeneration

def editStep (options : EditOptions α) (ed : Editor α) (action : EditAction α) : Option (Editor α) :=
  (ed.toEditState.act options action).map fun s => { toEditState := s, cleanGeneration := ed.remember action }

/-- `isClean()`. -/
def Editor.isClean (ed : Editor α) : Bool := ed.history.generation == ed.cleanGeneration

/-- A new document in its editor. -/
def newEditor (options : EditOptions α) (firstLine : ℕ) (text : List (List α)) (time : ℤ) : Option (Editor α) :=
  let start : Pos := ⟨firstLine, 0⟩
  (newDoc firstLine text).bind fun doc =>
    (EditState.setSelection options { time := time } ⟨doc, simpleSelection start start, History.new 0⟩
      (simpleSelection start start) (some {})).map fun s => { toEditState := s }

end StudyTech
