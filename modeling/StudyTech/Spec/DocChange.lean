import StudyTech.Spec.LineTree

/-!
# Positions and changes of a document

The positions of the editor, the text between them, and `updateDoc`, which puts another text there. A position
that a caller gives may be anywhere, a clipped one has natural numbers. `from` and `to` of a change are `start`
and `stop` here. Marked spans and the events of the lines are left out; `estimateHeight` is told the text of a
line.
-/

namespace StudyTech

variable {α σ : Type}

structure Pos where
  line : ℕ
  ch : ℕ
  deriving DecidableEq, Repr

/-- `cmp`. -/
def cmpPos (a b : Pos) : ℤ := if a.line = b.line then (a.ch : ℤ) - b.ch else (a.line : ℤ) - b.line

def minPos (a b : Pos) : Pos := if cmpPos a b < 0 then a else b

def maxPos (a b : Pos) : Pos := if cmpPos a b < 0 then b else a

/-- A position as a caller gives it. -/
structure GivenPos where
  line : ℤ
  ch : Option ℤ
  deriving DecidableEq, Repr

/-- A change: `text` are the lines that are put between `start` and `stop`. -/
structure Change (α : Type) where
  start : Pos
  stop : Pos
  text : List (List α)
  origin : Option String := none
  full : Bool := false
  deriving DecidableEq, Repr

/-- `changeEnd`: where the text of a change ends when it is made. -/
def changeEnd (change : Change α) : Pos :=
  ⟨change.start.line + change.text.length - 1,
    (change.text.getLastD []).length + if change.text.length = 1 then change.start.ch else 0⟩

/-- `adjustForChange`. -/
def adjustForChange (pos : Pos) (change : Change α) : Pos :=
  if cmpPos pos change.start < 0 then pos
  else if cmpPos pos change.stop ≤ 0 then changeEnd change
  else
    ⟨pos.line + change.text.length - (change.stop.line - change.start.line) - 1,
      if pos.line = change.stop.line then pos.ch + (changeEnd change).ch - change.stop.ch else pos.ch⟩

section Reading

def lineLength (doc : Doc α) (n : ℕ) : ℕ := ((doc.getLine n).elim [] Line.text).length

/-- `clipToLen`. -/
def clipToLen (line : ℕ) (ch : Option ℤ) (linelen : ℕ) : Pos :=
  match ch with
  | none => ⟨line, linelen⟩
  | some ch => if linelen < ch then ⟨line, linelen⟩ else if ch < 0 then ⟨line, 0⟩ else ⟨line, ch.toNat⟩

/-- `clipPos`. -/
def clipPos (doc : Doc α) (pos : GivenPos) : Pos :=
  if pos.line < doc.first then ⟨doc.first, 0⟩
  else
    let last := doc.first + doc.size - 1
    if last < pos.line then ⟨last, lineLength doc last⟩
    else clipToLen pos.line.toNat pos.ch (lineLength doc pos.line.toNat)

/-- `getBetween`: the loop counts the lines. -/
def getBetween (doc : Doc α) (start stop : Pos) : List (List α) :=
  (doc.iter start.line (stop.line + 1) (fun line (s : ℕ × List (List α)) =>
    let text := if s.1 = stop.line then line.text.take stop.ch else line.text
    let text := if s.1 = start.line then text.drop start.ch else text
    ((s.1 + 1, s.2 ++ [text]), false)) (start.line, [])).2

/-- `getLines`. -/
def getLines (doc : Doc α) (start stop : ℕ) : List (List α) :=
  doc.iter start stop (fun line out => (out ++ [line.text], false)) []

/-- `lineSep || "\n"`. -/
def orNewline (newline : α) : List α → List α
  | [] => [newline]
  | lineSep => lineSep

/-- `getValue`. -/
def getValue (newline : α) (doc : Doc α) (lineSep : List α) : List α :=
  (orNewline newline lineSep).intercalate (getLines doc doc.first (doc.first + doc.size))

/-- `getRange`. -/
def getRange (newline : α) (doc : Doc α) (start stop : GivenPos) (lineSep : List α) : List α :=
  (orNewline newline lineSep).intercalate (getBetween doc (clipPos doc start) (clipPos doc stop))

/-- `indexFromPos`. -/
def indexFromPos (doc : Doc α) (coords : GivenPos) : ℕ :=
  let coords := clipPos doc coords
  if coords.line < doc.first then 0
  else doc.iter doc.first coords.line (fun line index => (index + line.text.length + 1, false)) coords.ch

/-- The loop of `posFromIndex`, which takes the lengths of the lines off: what is left of the index, the number
of the line, and the letter in it. -/
def posStep (line : Line α) (s : ℤ × ℕ × Option ℤ) : (ℤ × ℕ × Option ℤ) × Bool :=
  let size : ℤ := line.text.length + 1
  if s.1 < size then ((s.1, s.2.1, some s.1), true) else ((s.1 - size, s.2.1 + 1, s.2.2), false)

/-- `posFromIndex`. -/
def posFromIndex (doc : Doc α) (off : ℤ) : Pos :=
  let found := doc.iterAll posStep (off, doc.first, none)
  clipPos doc ⟨found.2.1, found.2.2⟩

end Reading

section Changing

/-- What the options of an editor make of a change. -/
structure DocOptions (α : Type) where
  wholeLineUpdateBefore : Bool := true
  estimateHeight : List α → ℤ := fun _ => 1

/-- `isWholeLineUpdate`. -/
def isWholeLineUpdate (options : DocOptions α) (change : Change α) : Bool :=
  change.start.ch == 0 && change.stop.ch == 0 && (change.text.getLastD []).isEmpty && options.wholeLineUpdateBefore

/-- `new Line(text, …)`. -/
def newLine (options : DocOptions α) (text : List α) : Line α := ⟨text, options.estimateHeight text⟩

/-- `updateLine` of the line with a number. -/
def updateLine (options : DocOptions α) (doc : Doc α) (n : ℕ) (text : List α) : Doc α :=
  doc.setLine n (newLine options text)

/-- `updateDoc`; `none` is the error for a line that is not there. A full change is one of a document that
starts with line 0. -/
def updateDoc (options : DocOptions α) (doc : Doc α) (change : Change α) : Option (Doc α) :=
  let linesFor (i j : ℕ) := ((change.text.drop i).take (j - i)).map (newLine options)
  let start := change.start
  let stop := change.stop
  let text := change.text
  (doc.getLine start.line).bind fun firstLine => (doc.getLine stop.line).map fun lastLine =>
    let lastText := text.getLastD []
    let nlines := stop.line - start.line
    if change.full then
      let doc := doc.insert 0 (linesFor 0 text.length)
      doc.remove text.length (doc.size - text.length)
    else if isWholeLineUpdate options change then
      let added := linesFor 0 (text.length - 1)
      let doc := updateLine options doc stop.line lastLine.text
      let doc := if nlines = 0 then doc else doc.remove start.line nlines
      if added.length = 0 then doc else doc.insert start.line added
    else if start.line = stop.line then
      if text.length = 1 then
        updateLine options doc start.line (firstLine.text.take start.ch ++ lastText ++ firstLine.text.drop stop.ch)
      else
        let added := linesFor 1 (text.length - 1) ++ [newLine options (lastText ++ firstLine.text.drop stop.ch)]
        let doc := updateLine options doc start.line (firstLine.text.take start.ch ++ text.headD [])
        doc.insert (start.line + 1) added
    else if text.length = 1 then
      let doc := updateLine options doc start.line
        (firstLine.text.take start.ch ++ text.headD [] ++ lastLine.text.drop stop.ch)
      doc.remove (start.line + 1) nlines
    else
      let doc := updateLine options doc start.line (firstLine.text.take start.ch ++ text.headD [])
      let doc := updateLine options doc stop.line (lastText ++ lastLine.text.drop stop.ch)
      let doc := if 1 < nlines then doc.remove (start.line + 1) (nlines - 1) else doc
      doc.insert (start.line + 1) (linesFor 1 (text.length - 1))

/-- `new Doc(text, mode, firstLine)`. -/
def newDoc (firstLine : ℕ) (text : List (List α)) : Option (Doc α) :=
  updateDoc {} (Doc.new firstLine) { start := ⟨firstLine, 0⟩, stop := ⟨firstLine, 0⟩, text := text }

end Changing

end StudyTech
