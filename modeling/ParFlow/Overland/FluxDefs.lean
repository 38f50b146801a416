import ParFlow.Lib.NdArray
import ParFlow.Grid.SubgridDefs
import ParFlow.Lib.FuelRun
import ParFlow.Lib.IntLoop
import ParFlow.Topo.ColumnDefs

/-! Overland fluxes: `OverlandFlowEvalKin` and `OverlandFlowEval` of the simulator
(`overlandflow_eval_Kin.c`, `overlandflow_eval.c`, function values) and `calculate_overland_fluxes` of the
Python tools (`hydrology.py`). Numbers are elements of an ordered field; the square root and the power `5/3`
are functions without further meaning. -/

namespace ParFlow

section

variable {K : Type} [Field K] [LinearOrder K]

/-- `x ** 0.5` and `x ** (5/3)`. -/
structure PowerFns (K : Type) where
  half : K → K
  fiveThirds : K → K

/-! ## The simulator -/

/-- `RPowerR` for one of the powers. -/
def rPowerR (pow : K → K) (base : K) : K := if base ≤ 0 then 0 else pow base

def pfmax (a b : K) : K := if a < b then b else a

/-- `RPMean` -/
def upstreamMean (a b c d : K) : K := if a - b ≥ 0 then c else d

/-- What the evaluation reads: slopes, Manning coefficients and index of the top cell of each column, all with
one layout, and the pressure. -/
structure OverlandData (K : Type) where
  powers : PowerFns K
  slopeX : Subvector K
  slopeY : Subvector K
  mannings : Subvector K
  top : Subvector ℤ
  pressure : Subvector K
  ovEpsilon : K

/-- Fluxes through the four sides of the columns. -/
structure OverlandFaces (K : Type) where
  ke : ℤ → K
  kw : ℤ → K
  kn : ℤ → K
  ks : ℤ → K

namespace OverlandData

variable (P : OverlandData K)

/-- `pfmax(pp[ip], 0.0)` -/
def pondDepth (i j k : ℤ) : K := pfmax (P.pressure.data (subvectorEltIndex P.pressure.dataSpace i j k)) 0

/-- `Sf_mag` -/
def sfMag (sfX sfY : K) : K :=
  let mag := rPowerR P.powers.half (sfX * sfX + sfY * sfY)
  if mag < P.ovEpsilon then P.ovEpsilon else mag

def kinematicFlux (sf mag mann press : K) : K :=
  -(sf / (rPowerR P.powers.half |mag| * mann)) * rPowerR P.powers.fiveThirds press

/-- The flux of one direction at the column with index `io`, and the fix for a lower boundary, which writes into
the column `step` before it. -/
def kinematicFace (io step k0 k1 : ℤ) (sf mag mann press pressNext : K) (q : ℤ → K) : ℤ → K :=
  let q := if 0 ≤ k1 then Function.update q io (P.kinematicFlux sf mag mann (upstreamMean (-sf) 0 press pressNext)) else q
  if k0 < 0 ∧ 0 ≤ k1 ∧ 0 < sf then Function.update q (io - step) (P.kinematicFlux sf mag mann press) else q

/-- The loop body of `OverlandFlowEvalKin` for the column `(i, j)`. -/
def kinematicColumn (q : (ℤ → K) × (ℤ → K)) (column : ℤ × ℤ) : (ℤ → K) × (ℤ → K) :=
  let i := column.1
  let j := column.2
  let io := subvectorEltIndex P.slopeX.dataSpace i j 0
  let itop := subvectorEltIndex P.top.dataSpace i j 0
  let syV := P.top.dataSpace.nx
  let k1 := P.top.data itop
  let k0x := P.top.data (itop - 1)
  let k0y := P.top.data (itop - syV)
  let k1x := max (P.top.data (itop + 1)) 0
  let k1y := max (P.top.data (itop + syV)) 0
  let sfX := P.slopeX.data io
  let sfY := P.slopeY.data io
  let mag := P.sfMag sfX sfY
  let mann := P.mannings.data io
  (P.kinematicFace io 1 k0x k1 sfX mag mann (P.pondDepth i j k1) (P.pondDepth (i + 1) j k1x) q.1,
    P.kinematicFace io syV k0y k1 sfY mag mann (P.pondDepth i j k1) (P.pondDepth i (j + 1) k1y) q.2)

/-- The second loop, which reads the fluxes of both sides of a column. -/
def kinematicFaces (q : (ℤ → K) × (ℤ → K)) (faces : OverlandFaces K) (column : ℤ × ℤ) : OverlandFaces K :=
  let io := subvectorEltIndex P.slopeX.dataSpace column.1 column.2 0
  { ke := Function.update faces.ke io (q.1 io)
    kw := Function.update faces.kw io (q.1 (io - 1))
    kn := Function.update faces.kn io (q.2 io)
    ks := Function.update faces.ks io (q.2 (io - P.top.dataSpace.nx)) }

/-- `OverlandFlowEvalKin` over the columns of the boundary patch. -/
def overlandFlowEvalKin (columns : List (ℤ × ℤ)) (q : (ℤ → K) × (ℤ → K)) (faces : OverlandFaces K) : OverlandFaces K :=
  columns.foldl (P.kinematicFaces (columns.foldl P.kinematicColumn q)) faces

/-- `q_v` of the column at `(i, j)`, with index `io` among the slopes and `itop` among the tops; 0 for an
inactive one. -/
def columnVelocity (slope : Subvector K) (io itop i j : ℤ) : K :=
  let k1 := P.top.data itop
  if 0 ≤ k1 then
    let dir : K := if slope.data io > 0 then -1 else if slope.data io < 0 then 1 else 0
    dir * (rPowerR P.powers.half |slope.data io| / P.mannings.data io) *
      rPowerR P.powers.fiveThirds (P.pondDepth i j k1)
  else
    0

/-- The loop body of `OverlandFlowEval`. -/
def flowFaces (faces : OverlandFaces K) (column : ℤ × ℤ) : OverlandFaces K :=
  let i := column.1
  let j := column.2
  let io := subvectorEltIndex P.slopeX.dataSpace i j 0
  let itop := subvectorEltIndex P.top.dataSpace i j 0
  let syV := P.top.dataSpace.nx
  let qX := fun ii => P.columnVelocity P.slopeX (io + ii) (itop + ii) (i + ii) j
  let qY := fun ii => P.columnVelocity P.slopeY (io + ii * syV) (itop + ii * syV) i (j + ii)
  { kw := Function.update faces.kw io (pfmax (qX (-1)) 0 - pfmax (-qX 0) 0)
    ke := Function.update faces.ke io (pfmax (qX 0) 0 - pfmax (-qX 1) 0)
    ks := Function.update faces.ks io (pfmax (qY (-1)) 0 - pfmax (-qY 0) 0)
    kn := Function.update faces.kn io (pfmax (qY 0) 0 - pfmax (-qY 1) 0) }

/-- `OverlandFlowEval` over the columns of the boundary patch. -/
def overlandFlowEval (columns : List (ℤ × ℤ)) (faces : OverlandFaces K) : OverlandFaces K := columns.foldl P.flowFaces faces

end OverlandData

/-! ## The Python tools -/

/-- `np.sign` -/
def npSign (x : K) : K := if 0 < x then 1 else if x < 0 then -1 else 0

/-- `_overland_flow` -/
def pyOverlandFlow (powers : PowerFns K) (pressureTop slopex slopey mannings : PlaneArray K) (dx dy : K) :
    PlaneArray K × PlaneArray K :=
  let upwind := PlaneArray.zipWith fun a b : K => max 0 a - max 0 (-b)
  let qx : PlaneArray K := ⟨pressureTop.ny, pressureTop.nx, fun j i =>
    -(npSign (slopex.get j i) * powers.half |slopex.get j i| / mannings.get j i) *
      powers.fiveThirds (pressureTop.get j i) * dy⟩
  let qeast := upwind qx.initColumns qx.tailColumns
  let qeast := (qx.firstColumn.map fun a => -max 0 (-a)).hstack qeast
  let qeast := qeast.hstack (qx.lastColumn.map fun a => max 0 a)
  let qy : PlaneArray K := ⟨pressureTop.ny, pressureTop.nx, fun j i =>
    -(npSign (slopey.get j i) * powers.half |slopey.get j i| / mannings.get j i) *
      powers.fiveThirds (pressureTop.get j i) * dx⟩
  let qnorth := upwind qy.initRows qy.tailRows
  let qnorth := (qy.firstRow.map fun a => -max 0 (-a)).vstack qnorth
  let qnorth := qnorth.vstack (qy.lastRow.map fun a => max 0 a)
  (qeast, qnorth)

/-- `slope`, the magnitude of both slopes with `np.hypot` as the root of the sum of squares. -/
def pySlope (powers : PowerFns K) (epsilon slopex slopey : K) : K :=
  max epsilon (powers.half (slopex * slopex + slopey * slopey))

/-- `-slopex / flux_factor * pressure ** (5 / 3) * dy`, and the same along y. -/
def pyFlux (powers : PowerFns K) (slope mannings slopex pressure dy : K) : K :=
  -slopex / (powers.half slope * mannings) * powers.fiveThirds pressure * dy

/-- `_overland_flow_kinematic` -/
def pyOverlandFlowKinematic (powers : PowerFns K) (mask : NdArray ℤ) (pressureTop slopex slopey mannings : PlaneArray K)
    (dx dy epsilon : K) : PlaneArray K × PlaneArray K :=
  let mask := PlaneArray.ofLastLayer mask
  let c := fun j i => mask.diffColumns.get j i = 1
  let slopex := slopex.copyFromRight c
  let slopey := slopey.copyFromRight c
  let mannings := mannings.copyFromRight c
  let slope := PlaneArray.zipWith (pySlope powers epsilon) slopex slopey
  let padded := pressureTop.tailColumns.padRight
  let qx : PlaneArray K := ⟨pressureTop.ny, pressureTop.nx, fun j i =>
    pyFlux powers (slope.get j i) (mannings.get j i) (slopex.get j i)
      (max 0 (npSign (slopex.get j i) * padded.get j i) + max 0 (-npSign (slopex.get j i) * pressureTop.get j i)) dy⟩
  let qx0 : PlaneArray K := ⟨pressureTop.ny, 1, fun j _ =>
    pyFlux powers (slope.get j 0) (mannings.get j 0) (slopex.get j 0)
      (max 0 (npSign (slopex.get j 0) * pressureTop.get j 0)) dy⟩
  let qeast := qx0.hstack qx
  let c := fun j i => mask.diffRows.get j i = 1
  let slopey := slopey.copyFromBelow c
  let slopex := slopex.copyFromBelow c
  let mannings := mannings.copyFromBelow c
  let slope := PlaneArray.zipWith (pySlope powers epsilon) slopex slopey
  let padded := pressureTop.tailRows.padBottom
  let qy : PlaneArray K := ⟨pressureTop.ny, pressureTop.nx, fun j i =>
    pyFlux powers (slope.get j i) (mannings.get j i) (slopey.get j i)
      (max 0 (npSign (slopey.get j i) * padded.get j i) + max 0 (-npSign (slopey.get j i) * pressureTop.get j i)) dx⟩
  let qy0 : PlaneArray K := ⟨1, pressureTop.nx, fun _ i =>
    pyFlux powers (slope.get 0 i) (mannings.get 0 i) (slopey.get 0 i)
      (max 0 (npSign (slopey.get 0 i) * pressureTop.get 0 i)) dx⟩
  let qnorth := qy0.vstack qy
  (qeast, qnorth)

inductive FlowMethod where
  | overlandFlow | overlandKinematic
  deriving DecidableEq, Repr

/-- `calculate_overland_fluxes` for slopes and Manning coefficients with two axes. -/
def calculateOverlandFluxes (powers : PowerFns K) (pressure : NdArray K) (slopex slopey mannings : PlaneArray K)
    (dx dy : K) (flowMethod : FlowMethod) (epsilon : K) (mask : Option (NdArray K)) : PlaneArray K × PlaneArray K :=
  let pressureTop := (PlaneArray.ofLastLayer pressure).map fun p => if p < 0 then 0 else p
  match flowMethod with
  | .overlandKinematic =>
    let mask := mask.getD (pressure.map fun _ => 1)
    let mask : NdArray ℤ := mask.map fun m => if m > 0 then 1 else 0
    pyOverlandFlowKinematic powers mask pressureTop slopex slopey mannings dx dy epsilon
  | .overlandFlow => pyOverlandFlow powers pressureTop slopex slopey mannings dx dy

end

end ParFlow

/-! Outflow over the edge of the active region (`overlandsum.c`), for a process with one subgrid. Rows and columns are
scanned by a machine with two states. Loops take fuel, and running out of it is an error; reads may go anywhere. -/

namespace ParFlow

open IntLoop FuelRun

/-! ## The scan of a line -/

inductive LineState where
  | inactive | active
  deriving DecidableEq, Repr

section

variable {σ : Type} (t : ℤ → ℤ) (n : ℤ)

/-- `while (k < 0 && j <= iy + ny)`: the final `j`. -/
def skipInactive : ℕ → ℤ → Except Fault ℤ
  | 0, _ => .error .fuel
  | fuel + 1, j => if t j < 0 ∧ j ≤ n then skipInactive fuel (j + 1) else .ok j

/-- `while (k >= 0 && j <= iy + ny)`, which looks one place ahead. -/
def skipActive : ℕ → ℤ → Except Fault ℤ
  | 0, _ => .error .fuel
  | fuel + 1, j => if t (j + 1) ≥ 0 ∧ j ≤ n then skipActive fuel (j + 1) else .ok j

/-- `while (j < iy + ny)`. The functions `low` and `high` add the outflow through the lower and the higher face of the
column at `j`, whose top index is `k`. -/
def scanLine (low high : ℤ → ℤ → σ → σ) : ℕ → LineState → ℤ → σ → Except Fault σ
  | 0, _, _, _ => .error .fuel
  | fuel + 1, state, j, s =>
    if j < n then
      match state with
      | .inactive => do
        let j ← skipInactive t n fuel j
        if j < n then scanLine low high fuel .active (j + 1) (if t j ≥ 0 then low j (t j) s else s)
        else scanLine low high fuel .inactive (j + 1) s
      | .active => do
        let j ← skipActive t n fuel j
        scanLine low high fuel .inactive (j + 1) (if j < n then high j (t j) s else s)
    else .ok s

/-- The state in which the scan of a line starts. -/
def startState (k : ℤ) : LineState := if k < 0 then .inactive else .active

end

/-! ## The subgrid -/

/-- What the routine reads. The extents `dx` and `dy` are those of the columns. -/
structure OutflowData (K : Type) where
  powers : PowerFns K
  slopeX : Subvector K
  slopeY : Subvector K
  mannings : Subvector K
  top : Subvector ℤ
  pressure : Subvector K
  dx : K
  dy : K
  dt : K

variable {K : Type} [Field K] [LinearOrder K]

/-- The value of a column in a vector with one layer. -/
def Subvector.column {α : Type} (v : Subvector α) (i j : ℤ) : α := v.data (subvectorEltIndex v.dataSpace i j 0)

/-- `overland_sum_ptr[index_overland_sum] += amount`. -/
def addColumn (overlandSum : Subvector K) (i j : ℤ) (amount : K) : Subvector K :=
  let index := subvectorEltIndex overlandSum.dataSpace i j 0
  { overlandSum with data := Function.update overlandSum.data index (overlandSum.data index + amount) }

namespace OutflowData

variable (P : OutflowData K)

def pressureAt (i j k : ℤ) : K := P.pressure.data (subvectorEltIndex P.pressure.dataSpace i j k)

/-- The outflow of a column with the given slope through a face of the given width. -/
def runoff (slope width : K) (i j k : ℤ) : K :=
  (P.powers.half |slope| / P.mannings.column i j) * P.powers.fiveThirds (P.pressureAt i j k) * width * P.dt

/-- From inactive to active, where the slope runs out through the lower face. -/
def lowFace (slope : Subvector K) (width : K) (i j k : ℤ) (overlandSum : Subvector K) : Subvector K :=
  if slope.column i j > 0 then
    if P.pressureAt i j k > 0 then addColumn overlandSum i j (P.runoff (slope.column i j) width i j k) else overlandSum
  else overlandSum

/-- From active to inactive. -/
def highFace (slope : Subvector K) (width : K) (i j k : ℤ) (overlandSum : Subvector K) : Subvector K :=
  if slope.column i j < 0 then
    if P.pressureAt i j k > 0 then addColumn overlandSum i j (P.runoff (slope.column i j) width i j k) else overlandSum
  else overlandSum

/-- The scan along y. -/
def scanY (subgrid : Subgrid) (fuel : ℕ) (overlandSum : Subvector K) (i : ℤ) : Except Fault (Subvector K) :=
  scanLine (P.top.column i) (subgrid.iy + subgrid.ny) (P.lowFace P.slopeY P.dx i) (P.highFace P.slopeY P.dx i) fuel
    (startState (P.top.column i (subgrid.iy - 1))) (subgrid.iy - 1) overlandSum

/-- The scan along x. -/
def scanX (subgrid : Subgrid) (fuel : ℕ) (overlandSum : Subvector K) (j : ℤ) : Except Fault (Subvector K) :=
  scanLine (fun i => P.top.column i j) (subgrid.ix + subgrid.nx) (fun i k => P.lowFace P.slopeX P.dy i j k)
    (fun i k => P.highFace P.slopeX P.dy i j k) fuel (startState (P.top.column (subgrid.ix - 1) j)) (subgrid.ix - 1) overlandSum

def overlandSumSubgrid (subgrid : Subgrid) (fuel : ℕ) (overlandSum : Subvector K) : Except Fault (Subvector K) := do
  let overlandSum ← (upto subgrid.ix (subgrid.ix + subgrid.nx)).foldlM (P.scanY subgrid fuel) overlandSum
  (upto subgrid.iy (subgrid.iy + subgrid.ny)).foldlM (P.scanX subgrid fuel) overlandSum

/-- The list holds the types of the patches; type 7 is `OverlandFlow`. -/
def overlandSum (bcTypes : List ℤ) (subgrid : Subgrid) (overlandSum : Subvector K) (fuel : ℕ) :
    Except Fault (Subvector K) :=
  bcTypes.foldlM (fun overlandSum type =>
    if type = 7 then P.overlandSumSubgrid subgrid fuel overlandSum else .ok overlandSum) overlandSum

end OutflowData

end ParFlow

/-! The outflow of a domain, `calculate_overland_flow` of the Python tools (`hydrology.py`). -/

namespace ParFlow

open IntLoop

variable {K : Type} [Field K] [LinearOrder K]

/-- `np.where(a == 1)`, as pairs of a column and a row. -/
def whereOne (a : PlaneArray K) : List (ℤ × ℤ) :=
  ((upto 0 a.ny).flatMap fun j => (upto 0 a.nx).map fun i => (i, j)).filter fun c => a.get c.2 c.1 = 1

/-- `np.sum(np.maximum(0, a[w]))` -/
def sumPositive (a : PlaneArray K) (w : List (ℤ × ℤ)) : K := (w.map fun c => max 0 (a.get c.2 c.1)).sum

/-- `surface_mask` -/
def flowMask (slopex : PlaneArray K) (mask : Option (NdArray K)) : PlaneArray K :=
  match mask with
  | some mask => PlaneArray.ofLastLayer (mask.map fun m => if m > 0 then 1 else 0)
  | none => slopex.map fun _ => 1

/-- For slopes and Manning coefficients with two axes. -/
def calculateOverlandFlow (powers : PowerFns K) (pressure : NdArray K) (slopex slopey mannings : PlaneArray K) (dx dy : K)
    (flowMethod : FlowMethod) (epsilon : K) (mask : Option (NdArray K)) : K :=
  let (qeast, qnorth) := calculateOverlandFluxes powers pressure slopex slopey mannings dx dy flowMethod epsilon mask
  let surfaceMask := flowMask slopex mask
  let edgeSouth := surfaceMask.diffRowsBefore.map fun d => max 0 d
  let edgeNorth := surfaceMask.diffRows.map fun d => max 0 (-d)
  let edgeWest := surfaceMask.diffColumnsBefore.map fun d => max 0 d
  let edgeEast := surfaceMask.diffColumns.map fun d => max 0 (-d)
  let fluxNorth := sumPositive qnorth.rollRows (whereOne edgeNorth)
  let fluxSouth := sumPositive (qnorth.map fun q => -q) (whereOne edgeSouth)
  let fluxWest := sumPositive (qeast.map fun q => -q) (whereOne edgeWest)
  let fluxEast := sumPositive qeast.rollColumns (whereOne edgeEast)
  fluxNorth + fluxSouth + fluxWest + fluxEast

end ParFlow

/-! Surface runoff of the tools (`water_balance.c`). Every line is scanned by a loop that moves its own variable to the end
of a run of active columns. Loops take fuel, and running out of it is an error. -/

namespace ParFlow

open IntLoop FuelRun
open ParFlow.Topo
open ParFlow.Pfb (Databox)

section

variable {σ : Type} (t : ℤ → ℤ) (n : ℤ)

/-- `while ((j + 1 < ny) && !(*DataboxCoeff(top, i, j + 1, 0) < 0))`: the final `j`. -/
def runEnd : ℕ → ℤ → Except Fault ℤ
  | 0, _ => .error .fuel
  | fuel + 1, j => if j + 1 < n ∧ ¬ t (j + 1) < 0 then runEnd fuel (j + 1) else .ok j

/-- `for (j = 0; j < ny; j++)`. The functions `low` and `high` are for the first and the last column of a run. -/
def runLine (low high : ℤ → ℤ → σ → σ) : ℕ → ℤ → σ → Except Fault σ
  | 0, _, _ => .error .fuel
  | fuel + 1, j, s =>
    if j < n then
      let k := t j
      if ¬ k < 0 then do
        let s := low j k s
        let j ← runEnd t n fuel j
        runLine low high fuel (j + 1) (high j (t j) s)
      else runLine low high fuel (j + 1) s
    else .ok s

end

/-- What the routine reads; the values of `top` are indices of layers. -/
structure RunoffData (K : Type) where
  powers : PowerFns K
  top : Databox ℤ
  slopeX : Databox K
  slopeY : Databox K
  mannings : Databox K
  pressure : Databox K

namespace RunoffData

variable {K : Type} [Field K] [LinearOrder K] (P : RunoffData K)

/-- The runoff of a column with the given slope through a face of the given width. -/
def runoff (slope : Databox K) (width : K) (i j k : ℤ) : K :=
  (P.powers.half |coeffAt slope i j| / coeffAt P.mannings i j) * P.powers.fiveThirds (layerAt P.pressure i j k) * width

/-- The first column of a run, where the slope runs off through the lower face. -/
def lowFace (slope : Databox K) (width : K) (i j k : ℤ) (surfaceRunoff : Databox K) : Databox K :=
  if coeffAt slope i j > 0 then
    if layerAt P.pressure i j k > 0 then setCoeff surfaceRunoff i j (P.runoff slope width i j k) else surfaceRunoff
  else surfaceRunoff

/-- The last column of a run. -/
def highFace (slope : Databox K) (width : K) (i j k : ℤ) (surfaceRunoff : Databox K) : Databox K :=
  if coeffAt slope i j < 0 then
    if layerAt P.pressure i j k > 0 then setCoeff surfaceRunoff i j (P.runoff slope width i j k) else surfaceRunoff
  else surfaceRunoff

/-- The line of the first sweep at `i`. -/
def sweepY (fuel : ℕ) (surfaceRunoff : Databox K) (i : ℤ) : Except Fault (Databox K) :=
  runLine (fun j => coeffAt P.top i j) P.pressure.ny (P.lowFace P.slopeY P.pressure.dx i)
    (P.highFace P.slopeY P.pressure.dx i) fuel 0 surfaceRunoff

/-- The line of the second sweep at `j`. -/
def sweepX (fuel : ℕ) (surfaceRunoff : Databox K) (j : ℤ) : Except Fault (Databox K) :=
  runLine (fun i => coeffAt P.top i j) P.pressure.nx (fun i k => P.lowFace P.slopeX P.pressure.dy i j k)
    (fun i k => P.highFace P.slopeX P.pressure.dy i j k) fuel 0 surfaceRunoff

def computeSurfaceRunoff (surfaceRunoff : Databox K) (fuel : ℕ) : Except Fault (Databox K) := do
  let surfaceRunoff ← (upto 0 P.pressure.nx).foldlM (P.sweepY fuel) surfaceRunoff
  (upto 0 P.pressure.ny).foldlM (P.sweepX fuel) surfaceRunoff

end RunoffData

end ParFlow
