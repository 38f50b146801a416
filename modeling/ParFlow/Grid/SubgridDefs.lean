import Mathlib.Data.Finset.Dedup
import ParFlow.Lib.IntLoop

/-! Subregions of an index space and the operations on two of them: extraction
at a coarser resolution, intersection and subtraction (`region.h`, `region.c`,
`grid.c`). An `int` is an unbounded integer and `int` division truncates. -/

namespace ParFlow

/-- A cell `(i, j, k)` of an index space. -/
abbrev Cell := ℤ × ℤ × ℤ

-- decides membership in a list of cells
instance : LawfulBEq Cell := inferInstance

inductive Axis where
  | x | y | z
  deriving DecidableEq, Repr

def Axis.coord : Axis → Cell → ℤ
  | .x, c => c.1
  | .y, c => c.2.1
  | .z, c => c.2.2

structure Subregion where
  ix : ℤ
  iy : ℤ
  iz : ℤ
  nx : ℤ
  ny : ℤ
  nz : ℤ
  sx : ℤ
  sy : ℤ
  sz : ℤ
  rx : ℤ
  ry : ℤ
  rz : ℤ
  process : ℤ
  deriving DecidableEq, Repr

/-- A subgrid is a subregion with striding factors one. -/
abbrev Subgrid := Subregion

/-- Arrays grow by appending and own their elements. -/
abbrev SubgridArray := List Subgrid

namespace Subregion

def level (s : Subregion) : ℤ := s.rx + s.ry + s.rz

def lo (s : Subregion) : Axis → ℤ
  | .x => s.ix
  | .y => s.iy
  | .z => s.iz

def num (s : Subregion) : Axis → ℤ
  | .x => s.nx
  | .y => s.ny
  | .z => s.nz

def res (s : Subregion) : Axis → ℤ
  | .x => s.rx
  | .y => s.ry
  | .z => s.rz

/-- Assign the lower index and the size along one axis. -/
def setAxis (s : Subregion) (a : Axis) (i n : ℤ) : Subregion :=
  match a with
  | .x => { s with ix := i, nx := n }
  | .y => { s with iy := i, ny := n }
  | .z => { s with iz := i, nz := n }

/-- The cells of a subgrid (unit strides). -/
def cells (s : Subregion) : Finset Cell :=
  (IntLoop.nest (IntLoop.upto s.iz (s.iz + s.nz)) (IntLoop.upto s.iy (s.iy + s.ny))
    (IntLoop.upto s.ix (s.ix + s.nx))).toFinset

def NonEmpty (s : Subregion) : Prop := 0 < s.nx ∧ 0 < s.ny ∧ 0 < s.nz

instance (s : Subregion) : Decidable s.NonEmpty := inferInstanceAs (Decidable (_ ∧ _))

def SameRes (s t : Subregion) : Prop := s.rx = t.rx ∧ s.ry = t.ry ∧ s.rz = t.rz

instance (s t : Subregion) : Decidable (s.SameRes t) := inferInstanceAs (Decidable (_ ∧ _))

end Subregion

def newSubgrid (ix iy iz nx ny nz rx ry rz process : ℤ) : Subgrid :=
  ⟨ix, iy, iz, nx, ny, nz, 1, 1, 1, rx, ry, rz, process⟩

/-! ## Resolutions -/

/-- `(int)pow(2.0, (double)d)`: a negative exponent truncates to zero. -/
def intPow2 (d : ℤ) : ℤ := if 0 ≤ d then 2 ^ d.toNat else 0

/-- `((int)((t + (d - 1)) / d))`. -/
def ceilQuot (t d : ℤ) : ℤ := (t + (d - 1)).tdiv d

def extractAxis (r : ℤ) (s : Subgrid) (a : Axis) : ℤ × ℤ :=
  if s.res a - r > 0 then
    let d := intPow2 (s.res a - r)
    (ceilQuot (s.lo a) d, ceilQuot (s.lo a + s.num a) d - ceilQuot (s.lo a) d)
  else (s.lo a, s.num a)

def extractSubgrid (rx ry rz : ℤ) (s : Subgrid) : Subgrid :=
  let ex := extractAxis rx s .x
  let ey := extractAxis ry s .y
  let ez := extractAxis rz s .z
  newSubgrid ex.1 ey.1 ez.1 ex.2 ey.2 ez.2 rx ry rz s.process

/-! ## Intersection -/

/-- The bounds of `new` against `old` along one axis; `none` is the jump to `empty`. -/
def intersectAxis (old : Subgrid) (a : Axis) (new : Subgrid) : Option Subgrid :=
  let u := min (new.lo a + new.num a) (old.lo a + old.num a)
  let l := max (new.lo a) (old.lo a)
  if u > l then some (new.setAxis a l (u - l)) else none

def intersectSubgrids (s1 s2 : Subgrid) : Option Subgrid :=
  let old := if s2.level > s1.level then s1 else s2
  let new := if s2.level > s1.level then extractSubgrid s1.rx s1.ry s1.rz s2
    else extractSubgrid s2.rx s2.ry s2.rz s1
  (intersectAxis old .x new).bind fun n =>
    (intersectAxis old .y n).bind fun n => intersectAxis old .z n

/-! ## Subtraction -/

/-- The cut points of `s2` along an axis, in the index space of `s1`. -/
def cutPoints (s1 s2 : Subgrid) (a : Axis) : ℤ × ℤ :=
  if s2.res a - s1.res a ≠ 0 then
    let d := intPow2 (s2.res a - s1.res a)
    (ceilQuot (s2.lo a) d, ceilQuot (s2.lo a + s2.num a) d)
  else (s2.lo a, s2.lo a + s2.num a)

/-- Cut the piece below `c` off the remaining subgrid and append it. -/
def cutBelow (a : Axis) (c : ℤ) (st : Subgrid × SubgridArray) : Subgrid × SubgridArray :=
  if c > st.1.lo a ∧ c < st.1.lo a + st.1.num a then
    (st.1.setAxis a c (st.1.lo a + st.1.num a - c),
      st.2 ++ [st.1.setAxis a (st.1.lo a) (c - st.1.lo a)])
  else st

/-- Cut the piece from `c` on off the remaining subgrid and append it. -/
def cutAbove (a : Axis) (c : ℤ) (st : Subgrid × SubgridArray) : Subgrid × SubgridArray :=
  if c > st.1.lo a ∧ c < st.1.lo a + st.1.num a then
    (st.1.setAxis a (st.1.lo a) (c - st.1.lo a),
      st.2 ++ [st.1.setAxis a c (st.1.lo a + st.1.num a - c)])
  else st

def cutAxis (a : Axis) (c : ℤ × ℤ) (st : Subgrid × SubgridArray) : Subgrid × SubgridArray :=
  cutAbove a c.2 (cutBelow a c.1 st)

/-- The cut interval misses the subgrid along this axis. -/
def missesAxis (s : Subgrid) (a : Axis) (c : ℤ × ℤ) : Prop :=
  c.1 ≥ s.lo a + s.num a ∨ c.2 ≤ s.lo a

instance (s : Subgrid) (a : Axis) (c : ℤ × ℤ) : Decidable (missesAxis s a c) :=
  inferInstanceAs (Decidable (_ ∨ _))

/-- The remainder left when all three axes are cut is the part inside `s2`, and is dropped. -/
def subtractSubgrids (s1 s2 : Subgrid) : SubgridArray :=
  let cx := cutPoints s1 s2 .x
  let cy := cutPoints s1 s2 .y
  let cz := cutPoints s1 s2 .z
  if missesAxis s1 .x cx ∨ missesAxis s1 .y cy ∨ missesAxis s1 .z cz then [s1]
  else (cutAxis .z cz (cutAxis .y cy (cutAxis .x cx (s1, [])))).2

end ParFlow

/-! Subvectors (`vector.h`, `vector.c`): a data array over a subgrid with ghost layers. -/

namespace ParFlow

structure Subvector (α : Type) where
  dataSpace : Subgrid
  data : ℤ → α

def subvectorEltIndex (dataSpace : Subgrid) (x y z : ℤ) : ℤ :=
  (x - dataSpace.ix) + ((y - dataSpace.iy) + (z - dataSpace.iz) * dataSpace.ny) * dataSpace.nx

/-- The data space of a subgrid, as `NewTempVector` makes it. -/
def ghostSpace (subgrid : Subgrid) (numGhost : ℤ) : Subgrid :=
  newSubgrid (subgrid.ix - numGhost) (subgrid.iy - numGhost) (subgrid.iz - numGhost)
    (subgrid.nx + 2 * numGhost) (subgrid.ny + 2 * numGhost) (subgrid.nz + 2 * numGhost)
    subgrid.rx subgrid.ry subgrid.rz subgrid.process

end ParFlow
