import ParFlow.Lib.TreeWalk
import ParFlow.Grid.SubgridDefs

/-! Octrees of geometries and the loops over them (`grgeom_octree.h`). A macro that runs a
body is the list of what the body is run with. The loops keep no recursion: they walk the
tree with a stack of visited octants, and add and take back the offsets of the octants. -/

namespace ParFlow.Geom

open FuelRun TreeWalk IntLoop

/-! ## Octrees -/

/-- The state bits of `flags`; whether the `Leaf` bit is set is told by the constructor. -/
structure NodeFlags where
  empty : Bool
  outside : Bool
  inside : Bool
  full : Bool
  deriving DecidableEq, Repr

inductive GrGeomOctree where
  | leaf (flags : NodeFlags) (faces : BitVec 8)
  | branch (flags : NodeFlags) (faces : BitVec 8) (children : Fin 8 → GrGeomOctree)

/-- A face of a cell, which is also its direction. -/
inductive Face where
  | L | R | D | U | B | F
  deriving DecidableEq, Repr

namespace Face

def all : List Face := [L, R, D, U, B, F]

def index : Face → ℕ
  | L => 0
  | R => 1
  | D => 2
  | U => 3
  | B => 4
  | F => 5

end Face

namespace GrGeomOctree

def numChildren : ℕ := 8

instance octants_neZero : NeZero 8 := ⟨by decide⟩

def flags : GrGeomOctree → NodeFlags
  | leaf flags _ => flags
  | branch flags _ _ => flags

def faces : GrGeomOctree → BitVec 8
  | leaf _ faces => faces
  | branch _ faces _ => faces

def nodeIsLeaf : GrGeomOctree → Bool
  | leaf _ _ => true
  | branch _ _ _ => false

def nodeIsEmpty (node : GrGeomOctree) : Bool := node.flags.empty

def nodeIsOutside (node : GrGeomOctree) : Bool := node.flags.outside

def nodeIsInside (node : GrGeomOctree) : Bool := node.flags.inside

def nodeIsFull (node : GrGeomOctree) : Bool := node.flags.full

def hasFace (node : GrGeomOctree) (f : Face) : Bool := node.faces &&& (1#8 <<< f.index) ≠ 0

/-- The loops ask for the children of branches only. -/
def child : GrGeomOctree → ℕ → GrGeomOctree
  | leaf flags faces, _ => leaf flags faces
  | branch flags faces children, m => if h : m < numChildren then children ⟨m, h⟩ else branch flags faces children

end GrGeomOctree

open GrGeomOctree

/-! ## Walks -/

/-- `PV_i`, `PV_j`, `PV_k` and `PV_inc`. -/
structure Origin where
  cell : Cell
  inc : ℤ

/-- The offset of an octant in units of its size. -/
def octantOffset (m : ℕ) : Cell :=
  (if m &&& 1 ≠ 0 then 1 else 0, if m &&& 2 ≠ 0 then 1 else 0, if m &&& 4 ≠ 0 then 1 else 0)

def Origin.down (p : Origin) (m : ℕ) : Origin :=
  let inc := p.inc / 2
  let o := octantOffset m
  ⟨(p.cell.1 + inc * o.1, p.cell.2.1 + inc * o.2.1, p.cell.2.2 + inc * o.2.2), inc⟩

def Origin.up (p : Origin) (m : ℕ) : Origin :=
  let o := octantOffset m
  ⟨(p.cell.1 - p.inc * o.1, p.cell.2.1 - p.inc * o.2.1, p.cell.2.2 - p.inc * o.2.2), p.inc * 2⟩

/-- A body that is run at a node. -/
abbrev NodeBody (β : Type) := GrGeomOctree → Origin → List β

variable {β : Type}

def octreeLoopTemplate (traversalStopTest bodyTest : GrGeomOctree → Bool) (levelBody codeBody : NodeBody β) :
    Walk GrGeomOctree Origin β where
  arity := numChildren
  child := child
  down := Origin.down
  up := Origin.up
  atLevel node p := if bodyTest node then levelBody node p else []
  atNode node p :=
    if node.nodeIsLeaf || traversalStopTest node then some (if bodyTest node then codeBody node p else []) else none

def octreeInteriorLoop (levelBody codeBody : NodeBody β) : Walk GrGeomOctree Origin β :=
  octreeLoopTemplate nodeIsFull (fun node => node.nodeIsInside || node.nodeIsFull) levelBody codeBody

def octreeExteriorLoop (levelBody codeBody : NodeBody β) : Walk GrGeomOctree Origin β :=
  octreeLoopTemplate nodeIsEmpty (fun node => node.nodeIsOutside || node.nodeIsEmpty) levelBody codeBody

/-- The walk over inside nodes does not go below a branch without any. -/
def octreeInsideLoop (levelBody codeBody : NodeBody β) : Walk GrGeomOctree Origin β where
  arity := numChildren
  child := child
  down := Origin.down
  up := Origin.up
  atLevel node p := if node.nodeIsInside then levelBody node p else []
  atNode node p :=
    if node.nodeIsLeaf then some (if node.nodeIsInside then codeBody node p else [])
    else if ¬ node.nodeIsInside then some []
    else none

/-! ## Loops over a region -/

/-- The level body: the node is one cell of the region. -/
def regionLevelBody (region : Subgrid) (body : GrGeomOctree → Cell → List β) : NodeBody β := fun node p =>
  if (p.cell.1 ≥ region.ix ∧ p.cell.1 < region.ix + region.nx) ∧
      (p.cell.2.1 ≥ region.iy ∧ p.cell.2.1 < region.iy + region.ny) ∧
      p.cell.2.2 ≥ region.iz ∧ p.cell.2.2 < region.iz + region.nz then
    body node p.cell
  else []

/-- The code body: the cells of the node in the region. -/
def regionCodeBody (region : Subgrid) (body : GrGeomOctree → Cell → List β) : NodeBody β := fun node p =>
  (nest (upto (max region.iz p.cell.2.2) (min (region.iz + region.nz) (p.cell.2.2 + p.inc)))
    (upto (max region.iy p.cell.2.1) (min (region.iy + region.ny) (p.cell.2.1 + p.inc)))
    (upto (max region.ix p.cell.1) (min (region.ix + region.nx) (p.cell.1 + p.inc)))).flatMap (body node)

def octreeInteriorNodeLoop (fuel : ℕ) (start : Cell) (octree : GrGeomOctree) (level : ℕ) (region : Subgrid)
    (body : GrGeomOctree → Cell → List β) : Except Fault (List β) :=
  (octreeInteriorLoop (regionLevelBody region body) (regionCodeBody region body)).walk level fuel octree
    ⟨start, 2 ^ level⟩

def octreeExteriorNodeLoop (fuel : ℕ) (start : Cell) (octree : GrGeomOctree) (level : ℕ) (region : Subgrid)
    (body : GrGeomOctree → Cell → List β) : Except Fault (List β) :=
  (octreeExteriorLoop (regionLevelBody region body) (regionCodeBody region body)).walk level fuel octree
    ⟨start, 2 ^ level⟩

def octreeInsideNodeLoop (fuel : ℕ) (start : Cell) (octree : GrGeomOctree) (level : ℕ) (region : Subgrid)
    (body : GrGeomOctree → Cell → List β) : Except Fault (List β) :=
  (octreeInsideLoop (regionLevelBody region body) (regionCodeBody region body)).walk level fuel octree
    ⟨start, 2 ^ level⟩

/-- The body of a face loop is run once for each face of the node. -/
def octreeFaceLoop (fuel : ℕ) (start : Cell) (octree : GrGeomOctree) (levelOfInterest : ℕ) (region : Subgrid) :
    Except Fault (List (Cell × Face)) :=
  octreeInsideNodeLoop fuel start octree levelOfInterest region fun node c =>
    (Face.all.filter node.hasFace).map fun f => (c, f)

end ParFlow.Geom
