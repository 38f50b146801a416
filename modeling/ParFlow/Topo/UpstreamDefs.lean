import ParFlow.Lib.DepthFirst
import ParFlow.Pfb.DistDefs

/-! Upstream areas (`toposlopes.c`): for every cell the number of cells that drain into it. Values are elements of
an ordered field; the recursion takes fuel and running out of it is an error. -/

namespace ParFlow.Topo

open IntLoop FuelRun
open ParFlow.Pfb (Databox)

variable {K : Type}

/-- `*DataboxCoeff(databox, i, j, 0)`. -/
def coeffAt (d : Databox K) (i j : ℤ) : K := d.coeffs (d.coeff i j 0)

/-- `*DataboxCoeff(databox, i, j, 0) = v`. -/
def setCoeff (d : Databox K) (i j : ℤ) (v : K) : Databox K :=
  { d with coeffs := Function.update d.coeffs (d.coeff i j 0) v }

variable [Field K] [LinearOrder K]

def newDatabox (nx ny nz : ℤ) (x y z dx dy dz : K) : Databox K := ⟨nx, ny, nz, x, y, z, dx, dy, dz, fun _ => 0⟩

/-- The elevation of a cell without data. -/
def nodata : K := -9999

/-- Whether `[ii,jj]` is a parent of `[i,j]`: it slopes towards it. -/
def computeTestParent (i j ii jj : ℤ) (dem sx sy : Databox K) : ℤ :=
  if |i - ii| + |j - jj| = 1 then
    if coeffAt dem ii jj = nodata then 0
    else if ii = i - 1 ∧ jj = j ∧ coeffAt sx ii jj < 0 then 1
    else if ii = i + 1 ∧ jj = j ∧ coeffAt sx ii jj > 0 then 1
    else if ii = i ∧ jj = j - 1 ∧ coeffAt sy ii jj < 0 then 1
    else if ii = i ∧ jj = j + 1 ∧ coeffAt sy ii jj > 0 then 1
    else 0
  else -999

def computeParentMap (dem sx sy : Databox K) : ℕ → ℤ → ℤ → Databox K → Except Fault (Databox K)
  | 0, _, _, _ => .error .fuel
  | fuel + 1, i, j, parentmap =>
    if coeffAt dem i j = nodata then .ok parentmap
    else
      (upto (j - 1) (j + 1 + 1)).foldlM (fun parentmap jj =>
        (upto (i - 1) (i + 1 + 1)).foldlM (fun parentmap ii =>
          if ii = i ∧ jj = j then .ok parentmap
          else if ii ≠ i ∧ jj ≠ j then .ok parentmap
          else if ii < 0 ∨ jj < 0 ∨ ii > sx.nx - 1 ∨ jj > sx.ny - 1 then .ok parentmap
          else if coeffAt dem ii jj = nodata then .ok parentmap
          else
            let parent := computeTestParent i j ii jj dem sx sy
            if parent = 1 ∧ coeffAt parentmap ii jj ≠ 1 then computeParentMap dem sx sy fuel ii jj parentmap
            else .ok parentmap) parentmap) (setCoeff parentmap i j 1)

/-- `for (j = 0; j < ny; j++) for (i = 0; i < nx; i++)`. -/
def gridLoop (nx ny : ℤ) : List (ℤ × ℤ) := (upto 0 ny).flatMap fun j => (upto 0 nx).map fun i => (i, j)

/-- The cell `[i,j]` of the loop of `ComputeUpstreamArea`; the state is the parent map and the area. -/
def upstreamCell (dem sx sy : Databox K) (fuel : ℕ) (s : Databox K × Databox K) (c : ℤ × ℤ) :
    Except Fault (Databox K × Databox K) := do
  let (parentmap, area) := s
  let parentmap := (gridLoop sx.nx sx.ny).foldl (fun parentmap d => setCoeff parentmap d.1 d.2 0) parentmap
  let parentmap ←
    if coeffAt dem c.1 c.2 ≠ nodata then computeParentMap dem sx sy fuel c.1 c.2 parentmap else .ok parentmap
  let area := (gridLoop sx.nx sx.ny).foldl
    (fun area d => setCoeff area c.1 c.2 (coeffAt area c.1 c.2 + coeffAt parentmap d.1 d.2)) area
  .ok (parentmap, area)

/-- Returns the area. -/
def computeUpstreamArea (dem sx sy area : Databox K) (fuel : ℕ) : Except Fault (Databox K) := do
  let parentmap := newDatabox sx.nx sx.ny sx.nz sx.x sx.y sx.z sx.dx sx.dy sx.dz
  let (_, area) ← (gridLoop sx.nx sx.ny).foldlM (upstreamCell dem sx sy fuel) (parentmap, area)
  .ok area

end ParFlow.Topo
