import Mathlib.Algebra.BigOperators.Group.List.Basic
import Mathlib.Algebra.Ring.Int.Defs
import Mathlib.Algebra.Ring.Nat
import Mathlib.Data.Int.Notation
import Mathlib.Data.Nat.Notation

/-!
# The lines of an editor

`LeafChunk`, `BranchChunk` and `Doc` of the editor that blogs are written with: a tree of lines, in which a
chunk keeps its size and its height. Parent links are left out: what a method does to its parent is done by
the parent here, with what the method returns. Texts are lists of code units, heights are integers, and
positions are in range, which the source does not check: none is in front of the first line, and sizes never become
negative.
-/

namespace StudyTech

structure Line (α : Type) where
  text : List α
  height : ℤ
  deriving DecidableEq, Repr

/-- `LeafChunk` with its lines, and `BranchChunk` with its children. -/
inductive Chunk (α : Type)
  | leaf (lines : List (Line α)) (height : ℤ)
  | branch (children : List (Chunk α)) (size : ℕ) (height : ℤ)

variable {α σ : Type}

def heightOf (lines : List (Line α)) : ℤ := (lines.map Line.height).sum

namespace Chunk

def chunkSize : Chunk α → ℕ
  | leaf lines _ => lines.length
  | branch _ size _ => size

def height : Chunk α → ℤ
  | leaf _ height => height
  | branch _ _ height => height

/-- `new LeafChunk(lines)`. -/
def newLeaf (lines : List (Line α)) : Chunk α := leaf lines (heightOf lines)

/-- `new BranchChunk(children)`. -/
def newBranch (children : List (Chunk α)) : Chunk α :=
  branch children (children.map chunkSize).sum (children.map height).sum

mutual

/-- `collapse`: the lines of a chunk. -/
def collapse : Chunk α → List (Line α)
  | leaf lines _ => lines
  | branch children _ _ => collapseAll children

def collapseAll : List (Chunk α) → List (Line α)
  | [] => []
  | child :: children => collapse child ++ collapseAll children

end

section Insert

/-- The loops that split what has grown: while there are more than `limit` elements, the last `piece` of them
become a chunk of their own behind this one. `spilled` are the chunks that are there already. -/
def spill {β : Type} (limit piece : ℕ) (pack : List β → Chunk α) (node : List β → ℕ → ℤ → Chunk α) :
    ℕ → List β → ℕ → ℤ → List (Chunk α) → List (Chunk α)
  | 0, xs, size, height, spilled => node xs size height :: spilled
  | fuel + 1, xs, size, height, spilled =>
    if limit < xs.length then
      let sibling := pack (xs.drop (xs.length - piece))
      spill limit piece pack node fuel (xs.take (xs.length - piece)) (size - sibling.chunkSize)
        (height - sibling.height) (sibling :: spilled)
    else node xs size height :: spilled

/-- The loop of `insertInner` that splits a leaf with more than 50 lines. -/
def spillLeaf : Chunk α → List (Chunk α)
  | leaf lines height =>
    spill 50 25 newLeaf (fun lines _ height => leaf lines height) lines.length lines lines.length height []
  | branch children size height => [branch children size height]

/-- The loop of `maybeSpill` below the top: the chunk and its new siblings. -/
def spillBranch (children : List (Chunk α)) (size : ℕ) (height : ℤ) (spilled : List (Chunk α)) : List (Chunk α) :=
  spill 10 5 newBranch branch children.length children size height spilled

mutual

/-- `insertInner`, with the siblings that the chunk gets behind itself. -/
def insertInner (lines : List (Line α)) (height : ℤ) : Chunk α → ℕ → List (Chunk α)
  | leaf ls h, pos => [leaf (ls.take pos ++ lines ++ ls.drop pos) (h + height)]
  | branch children size h, pos =>
    spillBranch (insertChildren lines height children pos) (size + lines.length) (h + height) []

/-- The loop of `insertInner`. -/
def insertChildren (lines : List (Line α)) (height : ℤ) : List (Chunk α) → ℕ → List (Chunk α)
  | [], _ => []
  | child :: children, pos =>
    if pos ≤ child.chunkSize then (insertInner lines height child pos).flatMap spillLeaf ++ children
    else child :: insertChildren lines height children (pos - child.chunkSize)

end

end Insert

section Remove

/-- `this.children[0] instanceof LeafChunk`. -/
def firstIsLeaf : List (Chunk α) → Bool
  | leaf _ _ :: _ => true
  | _ => false

/-- The end of `removeInner`, where `n` is what is left to remove: fewer than 25 lines are put into one
leaf. -/
def collapseSmall (children : List (Chunk α)) (size n : ℕ) : List (Chunk α) :=
  if size - n < 25 ∧ (1 < children.length ∨ firstIsLeaf children = false) then [newLeaf (collapseAll children)]
  else children

mutual

def removeInner : Chunk α → ℕ → ℕ → Chunk α
  | leaf lines height, pos, n =>
    leaf (lines.take pos ++ lines.drop (pos + n)) (height - heightOf ((lines.drop pos).take n))
  | branch children size height, pos, n =>
    let (children, height, rest) := removeChildren children pos n height
    branch (collapseSmall children (size - n) rest) (size - n) height

/-- The loop of `removeInner`: the children, the height of the parent, and what is left to remove. -/
def removeChildren : List (Chunk α) → ℕ → ℕ → ℤ → List (Chunk α) × ℤ × ℕ
  | [], _, n, height => ([], height, n)
  | child :: children, pos, n, height =>
    let size := child.chunkSize
    if pos < size then
      let count := min n (size - pos)
      let child' := removeInner child pos count
      let kept := if size = count then [] else [child']
      let height := height - (child.height - child'.height)
      if n - count = 0 then (kept ++ children, height, 0)
      else
        let (children, height, rest) := removeChildren children 0 (n - count) height
        (kept ++ children, height, rest)
    else
      let (children, height, rest) := removeChildren children (pos - size) n height
      (child :: children, height, rest)

end

end Remove

section Access

/-- The loop of `iterN` of a leaf; `op` tells whether to stop. -/
def iterLines (op : Line α → σ → σ × Bool) : List (Line α) → σ → σ × Bool
  | [], s => (s, false)
  | line :: lines, s =>
    let (s, stop) := op line s
    if stop then (s, true) else iterLines op lines s

mutual

def iterN (op : Line α → σ → σ × Bool) : Chunk α → ℕ → ℕ → σ → σ × Bool
  | leaf lines _, pos, n, s => iterLines op ((lines.drop pos).take n) s
  | branch children _ _, pos, n, s => iterChildren op children pos n s

/-- The loop of `iterN`. -/
def iterChildren (op : Line α → σ → σ × Bool) : List (Chunk α) → ℕ → ℕ → σ → σ × Bool
  | [], _, _, s => (s, false)
  | child :: children, pos, n, s =>
    let size := child.chunkSize
    if pos < size then
      let used := min n (size - pos)
      let (s, stop) := iterN op child pos used s
      if stop then (s, true) else if n - used = 0 then (s, false) else iterChildren op children 0 (n - used) s
    else iterChildren op children (pos - size) n s

end

mutual

/-- The outer loop of `getLine`. -/
def getLine : Chunk α → ℕ → Option (Line α)
  | leaf lines _, n => lines[n]?
  | branch children _ _, n => getLineIn children n

/-- The inner loop of `getLine`. -/
def getLineIn : List (Chunk α) → ℕ → Option (Line α)
  | [], _ => none
  | child :: children, n =>
    if n < child.chunkSize then getLine child n else getLineIn children (n - child.chunkSize)

end

mutual

/-- The line at a position is another one now, and the height changes all the way up to the top. -/
def setLine (line : Line α) (diff : ℤ) : Chunk α → ℕ → Chunk α
  | leaf lines height, n => leaf (lines.set n line) (height + diff)
  | branch children size height, n => branch (setLineIn line diff children n) size (height + diff)

def setLineIn (line : Line α) (diff : ℤ) : List (Chunk α) → ℕ → List (Chunk α)
  | [], _ => []
  | child :: children, n =>
    if n < child.chunkSize then setLine line diff child n :: children
    else child :: setLineIn line diff children (n - child.chunkSize)

end

/-- The last loop of `lineAtHeight`. -/
def lineAtHeightLines : List (Line α) → ℤ → ℕ
  | [], _ => 0
  | line :: lines, h => if h < line.height then 0 else 1 + lineAtHeightLines lines (h - line.height)

mutual

/-- `lineAtHeight`, counted from the first line of the chunk. -/
def lineAtHeight : Chunk α → ℤ → ℕ
  | leaf lines _, h => lineAtHeightLines lines h
  | branch children _ _, h => lineAtHeightIn children h

def lineAtHeightIn : List (Chunk α) → ℤ → ℕ
  | [], _ => 0
  | child :: children, h =>
    if h < child.height then lineAtHeight child h
    else child.chunkSize + lineAtHeightIn children (h - child.height)

end

end Access

end Chunk

/-- `Doc`, the branch at the top. -/
structure Doc (α : Type) where
  first : ℕ
  children : List (Chunk α)
  size : ℕ
  height : ℤ

namespace Doc

open Chunk

/-- `maybeSpill` at the top, with a copy of it as the child that is split. -/
def maybeSpill : ℕ → List (Chunk α) → List (Chunk α)
  | 0, children => children
  | fuel + 1, children =>
    if 10 < children.length then
      let sibling := newBranch (children.drop (children.length - 5))
      let copy := children.take (children.length - 5)
      maybeSpill fuel (spillBranch copy (copy.map chunkSize).sum (copy.map Chunk.height).sum [sibling])
    else children

/-- `new Doc`, before its text is set. -/
def new (first : ℕ) : Doc α := ⟨first, [newLeaf [⟨[], 1⟩]], 1, 1⟩

def lines (doc : Doc α) : List (Line α) := collapseAll doc.children

/-- `doc.insert`. -/
def insert (doc : Doc α) (pos : ℕ) (lines : List (Line α)) : Doc α :=
  let children := insertChildren lines (heightOf lines) doc.children (pos - doc.first)
  { doc with
    children := maybeSpill children.length children
    size := doc.size + lines.length
    height := doc.height + heightOf lines }

/-- `doc.remove`. -/
def remove (doc : Doc α) (pos n : ℕ) : Doc α :=
  let (children, height, rest) := removeChildren doc.children (pos - doc.first) n doc.height
  { doc with
    children := collapseSmall children (doc.size - n) rest
    size := doc.size - n
    height := height }

/-- `getLine`; `none` is the error. -/
def getLine (doc : Doc α) (n : ℕ) : Option (Line α) :=
  if n < doc.first ∨ doc.size ≤ n - doc.first then none else getLineIn doc.children (n - doc.first)

/-- `line.text = text` and `updateLineHeight(line, height)` for the line at a position. -/
def setLine (doc : Doc α) (n : ℕ) (line : Line α) : Doc α :=
  match doc.getLine n with
  | none => doc
  | some old =>
    let diff := line.height - old.height
    { doc with
      children := setLineIn line diff doc.children (n - doc.first)
      height := doc.height + diff }

/-- `doc.iter(from, to, op)`. -/
def iter (doc : Doc α) (start stop : ℕ) (op : Line α → σ → σ × Bool) (s : σ) : σ :=
  (iterChildren op doc.children (start - doc.first) (stop - start) s).1

/-- `doc.iter(op)`, which starts where the number of the first line is. -/
def iterAll (doc : Doc α) (op : Line α → σ → σ × Bool) (s : σ) : σ :=
  (iterChildren op doc.children doc.first (doc.first + doc.size) s).1

def lineAtHeight (doc : Doc α) (h : ℤ) : ℕ := doc.first + lineAtHeightIn doc.children h

end Doc

/-- What happens to the lines of a document. -/
inductive LineEdit (α : Type)
  | insert (pos : ℕ) (lines : List (Line α))
  | remove (pos n : ℕ)
  | set (pos : ℕ) (line : Line α)

/-- What is within its lines the document does; the rest, which it would not refuse, is left out. -/
def lineStep (doc : Doc α) : LineEdit α → Option (Doc α)
  | .insert pos lines => if doc.first ≤ pos ∧ pos - doc.first ≤ doc.size then some (doc.insert pos lines) else none
  | .remove pos n => if doc.first ≤ pos ∧ pos - doc.first + n ≤ doc.size then some (doc.remove pos n) else none
  | .set pos line => if doc.first ≤ pos ∧ pos - doc.first < doc.size then some (doc.setLine pos line) else none

/-- The same on a list of lines, of which the first one has the number `first`. -/
def listStep (first : ℕ) (lines : List (Line α)) : LineEdit α → Option (List (Line α))
  | .insert pos added =>
    if first ≤ pos ∧ pos - first ≤ lines.length then
      some (lines.take (pos - first) ++ added ++ lines.drop (pos - first))
    else none
  | .remove pos n =>
    if first ≤ pos ∧ pos - first + n ≤ lines.length then
      some (lines.take (pos - first) ++ lines.drop (pos - first + n))
    else none
  | .set pos line => if first ≤ pos ∧ pos - first < lines.length then some (lines.set (pos - first) line) else none

end StudyTech
