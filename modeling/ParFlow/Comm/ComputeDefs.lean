import ParFlow.Grid.GridDefs

/-! Send and receive regions from stencils (`reg_from_stenc.c`), as each process
computes them from its own subgrids and the list of all subgrids. -/

namespace ParFlow

/-- A region holds one array of subregions for each subgrid of the process. -/
abbrev Region := List SubgridArray

/-- The shape of a stencil: the offsets of its elements. -/
abbrev StencilShape := List (ℤ × ℤ × ℤ)

/-- The element `s[e]` of a stencil. -/
def stencilElt (s : StencilShape) (e : ℕ) : Cell := s.getD e 0

structure Grid where
  subgrids : SubgridArray
  allSubgrids : SubgridArray

/-- `GetGridSubgrids`: the subgrids on a process, in the order of the list of all. -/
def getGridSubgrids (allSubgrids : SubgridArray) (myProc : ℤ) : SubgridArray :=
  allSubgrids.filter fun s => s.process = myProc

/-- The grid as process `myProc` sees it. -/
def gridOn (allSubgrids : SubgridArray) (myProc : ℤ) : Grid :=
  ⟨getGridSubgrids allSubgrids myProc, allSubgrids⟩

def Subregion.shift (s : Subregion) (v : ℤ × ℤ × ℤ) : Subregion :=
  { s with ix := s.ix + v.1, iy := s.iy + v.2.1, iz := s.iz + v.2.2 }

def Subregion.setProcess (s : Subregion) (p : ℤ) : Subregion := { s with process := p }

/-- The pieces of the shifted copies of a subgrid that lie outside it. -/
def stencilPieces (stencil : StencilShape) (s : Subgrid) : SubgridArray :=
  stencil.flatMap fun v => subtractSubgrids (s.shift v) s

def getGridNeighbors (subgrids allSubgrids : SubgridArray) (stencil : StencilShape) : SubgridArray :=
  let neighborSubgrids := subgrids.flatMap (stencilPieces stencil)
  allSubgrids.filter fun s => neighborSubgrids.any fun t => (intersectSubgrids s t).isSome

/-! ## Regions before the union -/

/-- What subgrid `s` sends: its part of every piece around every neighbour, tagged with the
neighbour's process. -/
def sendPieces (neighborRegion : Region) (s : Subgrid) : SubgridArray :=
  neighborRegion.flatMap fun sa => sa.filterMap fun t =>
    (intersectSubgrids s t).map fun u => u.setProcess t.process

/-- What the subgrid with the surrounding pieces `sa` receives: the part of every neighbour in
every piece, tagged with the neighbour's process. -/
def recvPieces (neighbors : SubgridArray) (sa : SubgridArray) : SubgridArray :=
  neighbors.flatMap fun s => sa.filterMap fun t =>
    (intersectSubgrids s t).map fun u => u.setProcess s.process

/-! ## Union by process -/

/-- The processes of an array, each once, in order of appearance. -/
def procArray (sa : SubgridArray) : List ℤ :=
  sa.foldl (fun procs s => Union.addIndex procs s.process) []

def unionByProcess (sa : SubgridArray) : SubgridArray :=
  (procArray sa).flatMap fun p =>
    (unionSubgridArray (sa.filter fun s => s.process = p)).map fun s => s.setProcess p

structure CommRegions where
  sendRegion : Region
  recvRegion : Region

def commRegFromStencil (grid : Grid) (stencil : StencilShape) : CommRegions :=
  let neighbors := getGridNeighbors grid.subgrids grid.allSubgrids stencil
  let subgridRegion := grid.subgrids.map (stencilPieces stencil)
  let neighborRegion := neighbors.map (stencilPieces stencil)
  { sendRegion := (grid.subgrids.map (sendPieces neighborRegion)).map unionByProcess
    recvRegion := (subgridRegion.map (recvPieces neighbors)).map unionByProcess }

/-- The subregions of a region tagged with a process, in the order an exchange packs them. -/
def Region.forProcess (r : Region) (p : ℤ) : SubgridArray := r.flatten.filter fun s => s.process = p

end ParFlow

/-! The regions of a computation that goes on during an exchange (`ComputeRegFromStencil` in
`reg_from_stenc.c`), projections to strided subregions (`grid.c`), and the compute packages of a
grid (`comm_pkg.c`). -/

namespace ParFlow

open IntLoop

/-! ## Dependent and independent regions -/

structure ComputeRegions where
  depRegion : Region
  indRegion : Region

/-- The subgrid without the boxes of `dr`, which are cut out one after the other. -/
def subtractAll (cr : Subgrid) (dr : SubgridArray) : SubgridArray :=
  dr.foldl (fun ir d => ir.flatMap fun s => subtractSubgrids s d) [cr]

def computeRegFromStencil (crArray : SubgridArray) (sendReg : Region) : ComputeRegions :=
  let depRegion := List.zipWith (fun _ sa => unionSubgridArray sa) crArray sendReg
  ⟨depRegion, List.zipWith subtractAll crArray depRegion⟩

/-! ## Projections -/

/-- The lower index and the size along one axis, for the stride `s` and the index `i` of the index region. -/
def projectAxis (lo n s i : ℤ) : ℤ × ℤ :=
  let il := (lo + i + (s - 1)).tdiv s * s - i
  let iu := (lo + i + n + (s - 1)).tdiv s * s - i
  (il, (iu - il).tdiv s)

/-- The projected subgrid, and whether it is non-empty. -/
def projectSubgrid (subgrid : Subgrid) (sx sy sz ix iy iz : ℤ) : Subregion × Bool :=
  let px := projectAxis subgrid.ix subgrid.nx sx ix
  let py := projectAxis subgrid.iy subgrid.ny sy iy
  let pz := projectAxis subgrid.iz subgrid.nz sz iz
  let projected : Subregion :=
    { subgrid with
      sx := sx, sy := sy, sz := sz
      ix := px.1, iy := py.1, iz := pz.1
      nx := px.2, ny := py.2, nz := pz.2 }
  if px.2 > 0 ∧ py.2 > 0 ∧ pz.2 > 0 then (projected, true)
  else ({ projected with nx := 0, ny := 0, nz := 0 }, false)

/-- Subregions with an empty projection are deleted. -/
def projectRegion (region : Region) (sx sy sz ix iy iz : ℤ) : Region :=
  region.map fun srArray => srArray.filterMap fun subregion =>
    let p := projectSubgrid subregion sx sy sz ix iy iz
    if p.2 then some p.1 else none

def projectRBPoint (region : Region) (rb : List (ℤ × ℤ × ℤ)) : Region :=
  rb.foldl (fun newRegion o => List.zipWith (fun new tmp => new ++ tmp) newRegion
    (projectRegion region 2 2 2 o.1 o.2.1 o.2.2)) (region.map fun _ => [])

/-! ## Compute packages -/

structure ComputePkg where
  sendRegion : Region
  recvRegion : Region
  depRegion : Region
  indRegion : Region

def red : List (ℤ × ℤ × ℤ) := [(1, 0, 0), (0, 1, 0), (0, 0, 1), (1, 1, 1)]

def black : List (ℤ × ℤ × ℤ) := [(0, 0, 0), (1, 1, 0), (1, 0, 1), (0, 1, 1)]

def updateAllShape : StencilShape := [(-1, 0, 0), (1, 0, 0), (0, -1, 0), (0, 1, 0), (0, 0, -1), (0, 0, 1)]

def updateAll2Shape : StencilShape :=
  [(-1, 0, 0), (1, 0, 0), (-2, 0, 0), (2, 0, 0), (0, -1, 0), (0, 1, 0), (0, -2, 0), (0, 2, 0), (0, 0, -1), (0, 0, 1),
    (0, 0, -2), (0, 0, 2)]

def updateVelzShape : StencilShape :=
  [(-1, 0, 0), (1, 0, 0), (0, -1, 0), (0, 1, 0), (0, 0, -1), (0, 0, 1), (0, 0, 2), (0, 0, -2)]

/-- `for (i = start; i != stop; i += inc)`, when `inc` divides the distance. -/
def stepTo (start stop inc : ℤ) : List ℤ := (upto 0 ((stop - start).tdiv inc)).map fun n => start + n * inc

/-- The loop along one axis beyond the element `elt` of a face. -/
def beyondFace (elt : ℤ) : List ℤ := if elt ≠ 0 then stepTo (2 * elt) (4 * elt) elt else stepTo (-1) 2 1

/-- All offsets up to `n` along each axis. -/
def cubeShape (n : ℤ) : StencilShape := nest (upto (-n) (n + 1)) (upto (-n) (n + 1)) (upto (-n) (n + 1))

def updateGodunovShape : StencilShape :=
  cubeShape 1 ++ updateAllShape.flatMap fun e => nest (beyondFace e.2.2) (beyondFace e.2.1) (beyondFace e.1)

inductive UpdateMode where
  | all | all2 | rPoint | bPoint | godunov | velZ | pgs1 | pgs2 | pgs3 | pgs4
  deriving DecidableEq, Repr

def UpdateMode.shape : UpdateMode → StencilShape
  | .all | .rPoint | .bPoint => updateAllShape
  | .all2 => updateAll2Shape
  | .godunov => updateGodunovShape
  | .velZ => updateVelzShape
  | .pgs1 => cubeShape 1
  | .pgs2 => cubeShape 2
  | .pgs3 => cubeShape 3
  | .pgs4 => cubeShape 4

/-- The package of a stencil. -/
def stencilPkg (grid : Grid) (stencil : StencilShape) : ComputePkg :=
  let comm := commRegFromStencil grid stencil
  let compute := computeRegFromStencil grid.subgrids comm.sendRegion
  ⟨comm.sendRegion, comm.recvRegion, compute.depRegion, compute.indRegion⟩

/-- One colour is exchanged and the other one computed. -/
def ComputePkg.projectRB (pkg : ComputePkg) (exchanged computed : List (ℤ × ℤ × ℤ)) : ComputePkg :=
  ⟨projectRBPoint pkg.sendRegion exchanged, projectRBPoint pkg.recvRegion exchanged,
    projectRBPoint pkg.depRegion computed, projectRBPoint pkg.indRegion computed⟩

def createComputePkgs (grid : Grid) (mode : UpdateMode) : ComputePkg :=
  match mode with
  | .rPoint => (stencilPkg grid mode.shape).projectRB black red
  | .bPoint => (stencilPkg grid mode.shape).projectRB red black
  | _ => stencilPkg grid mode.shape

end ParFlow
