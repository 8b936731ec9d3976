import StudyTech.Spec.DocChange

/-!
# Selections of an editor

`Range`, `Selection`, `normalizeSelection` and what a change makes of a selection. `ranges.sort` is stable. That
two positions are one object is modelled where the code asks it: `from()` of a range is its head when the anchor
is not before it.
-/

namespace StudyTech

variable {α : Type}

structure Range where
  anchor : Pos
  head : Pos
  deriving DecidableEq, Repr

namespace Range

/-- `from()`. -/
def start (r : Range) : Pos := minPos r.anchor r.head

/-- `to()`. -/
def stop (r : Range) : Pos := maxPos r.anchor r.head

def empty (r : Range) : Bool := r.head == r.anchor

/-- `range.from() == range.head`. -/
def startIsHead (r : Range) : Bool := !decide (cmpPos r.anchor r.head < 0)

end Range

structure Selection where
  ranges : List Range
  primIndex : ℕ
  deriving DecidableEq, Repr

/-- The loop of `normalizeSelection`: the ranges so far, the last one first, the ones that follow, and the
index of the primary one. -/
def mergeRanges : List Range → List Range → ℕ → Selection
  | done, [], primIndex => ⟨done.reverse, primIndex⟩
  | [], cur :: rest, primIndex => mergeRanges [cur] rest primIndex
  | prev :: done, cur :: rest, primIndex =>
    if 0 ≤ cmpPos prev.stop cur.start then
      let start := minPos prev.start cur.start
      let stop := maxPos prev.stop cur.stop
      let inv := if prev.empty then cur.startIsHead else prev.startIsHead
      mergeRanges (⟨if inv then stop else start, if inv then start else stop⟩ :: done) rest
        (if done.length + 1 ≤ primIndex then primIndex - 1 else primIndex)
    else mergeRanges (cur :: prev :: done) rest primIndex

/-- `normalizeSelection`: the ranges carry their indices through the sort, to find the primary one again. -/
def normalizeSelection (ranges : List Range) (primIndex : ℕ) : Selection :=
  let sorted := ranges.zipIdx.mergeSort fun a b => decide (cmpPos a.1.start b.1.start ≤ 0)
  mergeRanges [] (sorted.map Prod.fst) (sorted.findIdx fun r => r.2 == primIndex)

/-- `simpleSelection(anchor, head)`. -/
def simpleSelection (anchor head : Pos) : Selection := ⟨[⟨anchor, head⟩], 0⟩

namespace Selection

def primary (sel : Selection) : Option Range := sel.ranges[sel.primIndex]?

def somethingSelected (sel : Selection) : Bool := sel.ranges.any fun r => !r.empty

/-- `computeSelAfterChange`. -/
def afterChange (sel : Selection) (change : Change α) : Selection :=
  normalizeSelection
    (sel.ranges.map fun r => ⟨adjustForChange r.anchor change, adjustForChange r.head change⟩) sel.primIndex

end Selection

end StudyTech
