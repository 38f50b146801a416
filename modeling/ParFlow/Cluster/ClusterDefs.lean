import ParFlow.Lib.FuelRun
import ParFlow.Grid.SubgridDefs

/-! Clustering of tagged cells into boxes (`index_space.c`, `clustering.c`). A histogram is
indexed by global indices. `FindBoxesContainingTags` is not known to end, so it takes fuel. -/

namespace ParFlow.Clustering

open FuelRun IntLoop

/-! ## Index space -/

/-- A point has one index in each dimension. -/
abbrev Point := Cell

def Point.mk (f : Axis → ℤ) : Point := (f .x, f .y, f .z)

/-- `point[dim] = i`. -/
def Point.set (p : Point) (dim : Axis) (i : ℤ) : Point :=
  Point.mk fun a => if a = dim then i else a.coord p

structure Box where
  lo : Point
  up : Point
  deriving DecidableEq, Repr

/-- The boxes of a list from head to tail. -/
abbrev BoxList := List Box

namespace Box

def numberCells (b : Box) (a : Axis) : ℤ := a.coord b.up - a.coord b.lo + 1

def size (b : Box) : ℤ := b.numberCells .x * b.numberCells .y * b.numberCells .z

/-- The cells of a box in loop order. -/
def loop (b : Box) : List Cell :=
  nest (upto b.lo.2.2 (b.up.2.2 + 1)) (upto b.lo.2.1 (b.up.2.1 + 1)) (upto b.lo.1 (b.up.1 + 1))

def cells (b : Box) : Finset Cell := b.loop.toFinset

def Contains (b : Box) (c : Cell) : Prop :=
  (b.lo.1 ≤ c.1 ∧ c.1 ≤ b.up.1) ∧ (b.lo.2.1 ≤ c.2.1 ∧ c.2.1 ≤ b.up.2.1) ∧ b.lo.2.2 ≤ c.2.2 ∧ c.2.2 ≤ b.up.2.2

instance (b : Box) (c : Cell) : Decidable (b.Contains c) := inferInstanceAs (Decidable (_ ∧ _))

end Box

def boxListFront : BoxList → Except Fault Box
  | [] => .error .null
  | b :: _ => .ok b

/-! ## Tags -/

/-- The maximum number of ghost layers. -/
def numGhost : ℤ := 4

/-- An indicator vector on the one subgrid of a process, as the tags over its cells. -/
structure Indicator where
  subgrid : Subgrid
  tags : Cell → BitVec 32

/-- The subgrid grown by the ghost layers. -/
def Indicator.boundingBox (v : Indicator) : Box where
  lo := Point.mk fun a => v.subgrid.lo a - numGhost
  up := Point.mk fun a => v.subgrid.lo a - numGhost + (v.subgrid.num a + 2 * numGhost) - 1

def Indicator.Tagged (v : Indicator) (tag : BitVec 32) (c : Cell) : Prop := v.tags c &&& tag ≠ 0

instance (v : Indicator) (tag : BitVec 32) (c : Cell) : Decidable (v.Tagged tag c) :=
  inferInstanceAs (Decidable (_ ≠ _))

structure HistogramBox where
  box : Box
  histogram : Axis → ℤ → ℤ

def HistogramBox.getTags (h : HistogramBox) (dim : Axis) (globalIndex : ℤ) : ℤ :=
  h.histogram dim globalIndex

/-- The tagged cells of one layer of a box. -/
def reduceTags (v : Indicator) (tag : BitVec 32) (box : Box) (dim : Axis) (ic : ℤ) : ℤ :=
  let srcBox : Box := ⟨Point.set box.lo dim ic, Point.set box.up dim ic⟩
  let i a := max (v.subgrid.lo a - numGhost) (a.coord srcBox.lo)
  let n a := min (v.subgrid.num a + 2 * numGhost) (srcBox.numberCells a)
  (nest (upto (i .z) (i .z + n .z)) (upto (i .y) (i .y + n .y)) (upto (i .x) (i .x + n .x))).countP
    fun c => v.Tagged tag c ∧ srcBox.Contains c

def computeTagHistogram (v : Indicator) (tag : BitVec 32) (box : Box) : HistogramBox where
  box := box
  histogram dim ic := if dim.coord box.lo ≤ ic ∧ ic ≤ dim.coord box.up then reduceTags v tag box dim ic else 0

/-- The number of tags, counted along the first dimension. -/
def HistogramBox.numTags (h : HistogramBox) : ℤ :=
  ((upto h.box.lo.1 (h.box.up.1 + 1)).map (h.getTags .x)).sum

/-! ## Bounds -/

/-- Widen an interval to the minimum size inside the histogram. -/
def padInterval (minSize histLo histUp lo up : ℤ) : ℤ × ℤ :=
  let pad := minSize - (up - lo + 1)
  if pad > 0 then
    let lo := max (lo - (pad + 1).tdiv 2) histLo
    let up := lo + minSize - 1
    if up > histUp then (max histLo (histUp - minSize + 1), histUp) else (lo, up)
  else (lo, up)

def boundTagHistogram (h : HistogramBox) (dim : Axis) (minSize : ℤ) : ℤ × ℤ :=
  let histLo := dim.coord h.box.lo
  let histUp := dim.coord h.box.up
  if histUp - histLo + 1 > minSize then
    let lo := ((upto histLo (histUp + 1)).find? fun i => h.getTags dim i ≠ 0).getD (histUp + 1)
    let up := ((upto lo (histUp + 1)).reverse.find? fun i => h.getTags dim i ≠ 0).getD (lo - 1)
    padInterval minSize histLo histUp lo up
  else (histLo, histUp)

def findBoundBoxForTags (h : HistogramBox) (minBox : Point) : Box where
  lo := Point.mk fun a => (boundTagHistogram h a (a.coord minBox)).1
  up := Point.mk fun a => (boundTagHistogram h a (a.coord minBox)).2

/-! ## Cuts -/

/-- `(lo + hi) / 2` of two `int`s. -/
def midPoint (lo hi : ℤ) : ℤ := (lo + hi).tdiv 2

def findZeroCutPoint (dim : Axis) (lo hi : ℤ) (h : HistogramBox) (minSize : ℤ) : Option ℤ :=
  let cutLo := lo + minSize - 1
  let cutHi := hi - minSize
  let cutMid := midPoint lo hi
  (upto 0 (min (cutMid - cutLo) (cutHi - cutMid) + 1)).findSome? fun ic =>
    if h.getTags dim (cutMid - ic) = 0 then some (cutMid - ic)
    else if h.getTags dim (cutMid + ic) = 0 then some (cutMid + ic)
    else none

def laplacian (h : HistogramBox) (dim : Axis) (ic : ℤ) : ℤ :=
  h.getTags dim (ic - 1) - 2 * h.getTags dim ic + h.getTags dim (ic + 1)

/-- The search for an inflection point. -/
structure Inflection where
  lastLap : ℤ
  locZero : ℤ
  maxZero : ℤ

def Inflection.next (h : HistogramBox) (dim : Axis) (s : Inflection) (ic : ℤ) : Inflection :=
  let newLap := laplacian h dim ic
  let delta := |newLap - s.lastLap|
  if (newLap < 0 ∧ s.lastLap ≥ 0 ∨ newLap ≥ 0 ∧ s.lastLap < 0) ∧ delta > s.maxZero then
    ⟨newLap, ic - 1, delta⟩
  else { s with lastLap := newLap }

def cutAtLaplacian (dim : Axis) (lo hi : ℤ) (h : HistogramBox) (minSize : ℤ) : ℤ :=
  if hi - lo + 1 ≥ 3 then
    let infptLo := max (lo + minSize - 1) (lo + 1)
    let infptHi := min (hi - minSize) (hi - 2)
    ((upto (infptLo + 1) (infptHi + 2)).foldl (Inflection.next h dim)
      ⟨laplacian h dim infptLo, midPoint lo hi, 0⟩).locZero
  else midPoint lo hi

/-! ## Splitting -/

/-- The two dimensions, exchanged if the first is the smaller one. -/
def orderPair (numCells : Axis → ℤ) (p : Axis × Axis) : Axis × Axis :=
  if numCells p.1 < numCells p.2 then (p.2, p.1) else p

/-- The dimensions from largest to smallest. -/
def sortDims (numCells : Axis → ℤ) : List Axis :=
  let p := orderPair numCells (.x, .y)
  let q := orderPair numCells (p.1, .z)
  let r := orderPair numCells (p.2, q.2)
  [q.1, r.1, r.2]

def Box.cut (b : Box) (dim : Axis) (cutPt : ℤ) : Box × Box :=
  (⟨b.lo, Point.set b.up dim cutPt⟩, ⟨Point.set b.lo dim (cutPt + 1), b.up⟩)

def splitTagBoundBox (boundBox : Box) (h : HistogramBox) (minBox : Point) : Option (Box × Box) :=
  let numCells := boundBox.numberCells
  -- `nsplit` leading dimensions are large enough to be split
  match (sortDims numCells).takeWhile fun a => ¬ numCells a < 2 * a.coord minBox with
  | [] => none
  | dim :: dims =>
    let zero := (dim :: dims).findSome? fun a =>
      (findZeroCutPoint a (a.coord boundBox.lo) (a.coord boundBox.up) h (a.coord minBox)).map (boundBox.cut a)
    some (zero.getD (boundBox.cut dim
      (cutAtLaplacian dim (dim.coord boundBox.lo) (dim.coord boundBox.up) h (dim.coord minBox))))

/-! ## Recursion -/

/-- Append the lists of the two halves, unless they are one box each that fill the bound box. -/
def joinHalves (tagBoundBox : Box) (boxes lft rgt : BoxList) : Except Fault BoxList :=
  if lft.length > 1 ∨ rgt.length > 1 then .ok (boxes ++ lft ++ rgt)
  else do
    let frontLft ← boxListFront lft
    let frontRgt ← boxListFront rgt
    if frontLft.size + frontRgt.size < tagBoundBox.size then .ok (boxes ++ lft ++ rgt) else .ok boxes

/-- The common body of `FindBoxesContainingTags` and `BergerRigoutsos`; `recurse` clusters a half
into a new list. -/
def coverTags (recurse : Box → Except Fault BoxList) (v : Indicator) (minBox : Point) (tag : BitVec 32)
    (boxes : BoxList) (boundBox : Box) : Except Fault BoxList :=
  let histBox := computeTagHistogram v tag boundBox
  if histBox.numTags = 0 then .ok []
  else do
    let tagBoundBox := findBoundBoxForTags histBox minBox
    let boxes ←
      if histBox.numTags < tagBoundBox.size then
        match splitTagBoundBox tagBoundBox histBox minBox with
        | none => .ok boxes
        | some (boxLft, boxRgt) => do
          let lft ← recurse boxLft
          let rgt ← recurse boxRgt
          joinHalves tagBoundBox boxes lft rgt
      else .ok boxes
    .ok (if boxes.isEmpty then boxes ++ [tagBoundBox] else boxes)

def findBoxesContainingTags (v : Indicator) (minBox : Point) (tag : BitVec 32) :
    ℕ → BoxList → Box → Except Fault BoxList
  | 0, _, _ => .error .fuel
  | fuel + 1, boxes, boundBox =>
    coverTags (findBoxesContainingTags v minBox tag fuel []) v minBox tag boxes boundBox

def bergerRigoutsos (fuel : ℕ) (v : Indicator) (minBox : Point) (tag : BitVec 32) (boxes : BoxList) :
    Except Fault BoxList :=
  coverTags (findBoxesContainingTags v minBox tag fuel []) v minBox tag boxes v.boundingBox

end ParFlow.Clustering
