import ParFlow.Lib.FuelRun
import ParFlow.Lib.IntLoop
import ParFlow.Lib.Numerals
import ParFlow.Pfb.DistDefs
import ParFlow.Topo.UpstreamDefs

/-! Differences of two databoxes (`diff.c`): `SigDiff` prints them, `MSigDiff` returns them to the interpreter. Values are
elements of an ordered field. -/

namespace ParFlow.Diff

open IntLoop FuelRun
open scoped Numerals
open ParFlow.Pfb (Databox)

variable {K : Type} [Field K] [LinearOrder K]

/-- `sig_dig_rhs` -/
def sigDigRhs (m : ℤ) : K := if m ≥ 0 then 1 / 2 / 10 ^ m.toNat else 0

/-- The macro `max`. -/
def cMax (a b : K) : K := if a > b then a else b

/-- The variables of the loop over the elements; `v1_p` and `v2_p` point to the element with the index `p`, and `cell` is
`mi`, `mj` and `mk`. -/
structure DiffState (K : Type) where
  p : ℤ
  sdiff : K
  maxAdiff : K
  maxSdiff : K
  cell : ℤ × ℤ × ℤ
  mSigDigsEverywhere : Bool

/-- A line `(i,j,k) : adiff, x1, x2`. -/
structure DiffLine (K : Type) where
  cell : ℤ × ℤ × ℤ
  adiff : K
  x1 : K
  x2 : K

/-- The least number of significant digits with its cell, and the greatest absolute difference. -/
structure DiffReport (K : Type) where
  cell : ℤ × ℤ × ℤ
  sigDigs : ℤ
  maxAdiff : K

/-- The variable `sdiff` is not set before the loop. -/
def startState (sdiff : K) : DiffState K := ⟨0, sdiff, 0, 0, (0, 0, 0), true⟩

section Elements

variable (v1 v2 : Databox K) (m : ℤ) (absoluteZero : K)

/-- The round of `SigDiff` for the element `(i,j,k)`. -/
def sigDiffElement (st : DiffState K × List (DiffLine K)) (c : ℤ × ℤ × ℤ) : DiffState K × List (DiffLine K) :=
  let (s, lines) := st
  let x1 := v1.coeffs s.p
  let x2 := v2.coeffs s.p
  let adiff := |x1 - x2|
  let amax := cMax |x1| |x2|
  let sdiff := if amax > absoluteZero then adiff / amax else s.sdiff
  let mSigDigs := !decide (amax > absoluteZero ∧ sdiff > sigDigRhs m)
  let s := { s with p := s.p + 1, sdiff := sdiff }
  if !mSigDigs then
    let lines := if m ≥ 0 then lines ++ [⟨c, adiff, x1, x2⟩] else lines
    let s := if sdiff > s.maxSdiff then
        { s with maxSdiff := sdiff, maxAdiff := adiff, cell := c }
      else s
    ({ s with mSigDigsEverywhere := false }, lines)
  else (s, lines)

/-- The round of `MSigDiff`. -/
def mSigDiffElement (s : DiffState K) (c : ℤ × ℤ × ℤ) : DiffState K :=
  let x1 := v1.coeffs s.p
  let x2 := v2.coeffs s.p
  let adiff := |x1 - x2|
  let amax := cMax |x1| |x2|
  let maxAdiff := if s.maxAdiff < adiff then adiff else s.maxAdiff
  let sdiff := if amax > absoluteZero then adiff / amax else s.sdiff
  let mSigDigs := !decide (amax > absoluteZero ∧ sdiff > sigDigRhs m)
  let s := { s with p := s.p + 1, sdiff := sdiff, maxAdiff := maxAdiff }
  if !mSigDigs then
    let s := if sdiff > s.maxSdiff then { s with maxSdiff := sdiff, cell := c } else s
    { s with mSigDigsEverywhere := false }
  else s

end Elements

/-- `while (sdiff <= 0.5e-01)`: the final `sig_digs`. -/
def countDigits : ℕ → K → ℤ → Except Fault ℤ
  | 0, _, _ => .error .fuel
  | fuel + 1, sdiff, sigDigs => if sdiff ≤ 1 / 20 then countDigits fuel (sdiff * 10) (sigDigs + 1) else .ok sigDigs

/-- What is reported after the loop. -/
def reportDiff (s : DiffState K) (fuel : ℕ) : Except Fault (Option (DiffReport K)) := do
  if !s.mSigDigsEverywhere then
    let sigDigs ← countDigits fuel s.maxSdiff 0
    .ok (some ⟨s.cell, sigDigs, s.maxAdiff⟩)
  else .ok none

/-- `for (k ...) for (j ...) for (i ...)` over the elements of a databox. -/
def elements (v : Databox K) : List (ℤ × ℤ × ℤ) := nest (upto 0 v.nz) (upto 0 v.ny) (upto 0 v.nx)

/-- `SigDiff`: the lines of the elements and what is printed after them. The first value of `sdiff` is arbitrary. -/
def sigDiff (v1 v2 : Databox K) (m : ℤ) (absoluteZero sdiff : K) (fuel : ℕ) :
    Except Fault (List (DiffLine K) × Option (DiffReport K)) := do
  let (s, lines) := (elements v1).foldl (sigDiffElement v1 v2 m absoluteZero) (startState sdiff, [])
  let report ← reportDiff s fuel
  .ok (lines, report)

/-- `MSigDiff`: what is appended to the result, if anything. -/
def mSigDiff (v1 v2 : Databox K) (m : ℤ) (absoluteZero sdiff : K) (fuel : ℕ) : Except Fault (Option (DiffReport K)) :=
  reportDiff ((elements v1).foldl (mSigDiffElement v1 v2 m absoluteZero) (startState sdiff)) fuel

end ParFlow.Diff

/-! The vertical extents of a terrain following domain (`compute_domain.c`). -/

namespace ParFlow.Domain

open IntLoop
open ParFlow.Pfb (Databox)
open ParFlow.Topo (coeffAt)

def domainMax (a b : ℤ) : ℤ := if a > b then a else b

def domainMin (a b : ℤ) : ℤ := if a < b then a else b

/-- `patch_top` and `patch_bottom`. -/
structure Extent where
  patchTop : ℤ
  patchBottom : ℤ
  deriving DecidableEq, Repr

/-- `for (j = iy; j < iy + ny; ++j) for (i = ix; i < ix + nx; ++i)`. -/
def columnLoop (ix iy nx ny : ℤ) : List (ℤ × ℤ) :=
  (upto iy (iy + ny)).flatMap fun j => (upto ix (ix + nx)).map fun i => (i, j)

section

variable (top bottom : Databox ℤ)

def scanColumn (e : Extent) (c : ℤ × ℤ) : Extent :=
  let kTop := coeffAt top c.1 c.2
  let kBottom := coeffAt bottom c.1 c.2
  { patchTop := if kTop ≥ 0 then domainMax e.patchTop kTop else e.patchTop
    patchBottom := if kBottom ≥ 0 then domainMin e.patchBottom kBottom else e.patchBottom }

/-- The columns of the second scan; its start is already moved when the size is taken. -/
def rescanned (s : Subgrid) : List (ℤ × ℤ) :=
  let ix := domainMax 0 (s.ix - 1)
  let nx := domainMin (top.nx - ix) (s.nx + 2 - ix)
  let iy := domainMax 0 (s.iy - 1)
  let ny := domainMin (top.ny - iy) (s.ny + 2 - iy)
  columnLoop ix iy nx ny

/-- The body of the loop for one subgrid. -/
def domainSubgrid (s : Subgrid) : Subgrid :=
  let e := (columnLoop s.ix s.iy s.nx s.ny).foldl (scanColumn top bottom) ⟨s.iz, s.iz + s.nz⟩
  let e := ⟨domainMin (e.patchTop + 2) (s.iz + s.nz - 1), domainMax (e.patchBottom - 2) s.iz⟩
  let e := (rescanned top s).foldl (scanColumn top bottom) e
  { s with iz := e.patchBottom, nz := (e.patchTop - e.patchBottom) + 1 }

def computeDomain (allSubgrids : SubgridArray) (P Q R : ℤ) : SubgridArray :=
  (upto 0 (P * Q * R)).foldl (fun allSubgrids p =>
    allSubgrids.map fun s => if s.process = p then domainSubgrid top bottom s else s) allSubgrids

end

end ParFlow.Domain
