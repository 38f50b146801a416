import ParFlow.Comm.ComputeDefs
import ParFlow.Cluster.ClusterDefs
import ParFlow.Geom.OctreeDefs
import ParFlow.Lib.LinkedChain

/-! Loops over a solid, along its octrees or along boxes that were computed once
(`grgeometry.h`, `grgeometry.c`), and the computation of the boxes: each process tags the
cells of its subgrid, exchanges the tags and clusters them (`clustering.c`). -/

namespace ParFlow.Geom

open FuelRun IntLoop Clustering

structure GrGeomSolid where
  data : GrGeomOctree
  patches : List GrGeomOctree
  octreeBgLevel : ℤ
  octreeIx : ℤ
  octreeIy : ℤ
  octreeIz : ℤ
  interiorBoxes : Option BoxList
  surfaceBoxes : Face → Option BoxList
  patchBoxes : ℕ → Face → Option BoxList

/-- A solid without boxes. -/
def grGeomNewSolid (data : GrGeomOctree) (patches : List GrGeomOctree)
    (octreeBgLevel octreeIx octreeIy octreeIz : ℤ) : GrGeomSolid :=
  ⟨data, patches, octreeBgLevel, octreeIx, octreeIy, octreeIz, none, fun _ => none, fun _ _ => none⟩

namespace GrGeomSolid

/-- Where the octree starts in the index space of resolution `r`. -/
def origin (solid : GrGeomSolid) (r : ℤ) : Cell :=
  (solid.octreeIx * intPow2 r, solid.octreeIy * intPow2 r, solid.octreeIz * intPow2 r)

def levelAt (solid : GrGeomSolid) (r : ℤ) : ℕ := (solid.octreeBgLevel + r).toNat

end GrGeomSolid

/-! ## Loops along boxes -/

/-- The cells of a box in a region. -/
def clipLoop (region : Subgrid) (box : Box) : List Cell :=
  nest (upto (max region.iz box.lo.2.2) (min (region.iz + region.nz - 1) box.up.2.2 + 1))
    (upto (max region.iy box.lo.2.1) (min (region.iy + region.ny - 1) box.up.2.1 + 1))
    (upto (max region.ix box.lo.1) (min (region.ix + region.nx - 1) box.up.1 + 1))

def grGeomInLoopBoxes (solid : GrGeomSolid) (region : Subgrid) : Except Fault (List Cell) :=
  match solid.interiorBoxes with
  | none => .error .null
  | some boxes => .ok (boxes.flatMap (clipLoop region))

/-- The common loop of `GrGeomSurfLoopBoxes` and `GrGeomPatchLoopBoxes`. -/
def faceLoopBoxes (boxes : Face → Option BoxList) (region : Subgrid) : Except Fault (List (Cell × Face)) := do
  let visited ← Face.all.mapM fun f =>
    match boxes f with
    | none => .error .null
    | some boxes => .ok (boxes.flatMap fun box => (clipLoop region box).map fun c => (c, f))
  .ok visited.flatten

def grGeomSurfLoopBoxes (solid : GrGeomSolid) (region : Subgrid) : Except Fault (List (Cell × Face)) :=
  faceLoopBoxes solid.surfaceBoxes region

def grGeomPatchLoopBoxes (solid : GrGeomSolid) (patch : ℕ) (region : Subgrid) :
    Except Fault (List (Cell × Face)) :=
  faceLoopBoxes (solid.patchBoxes patch) region

/-! ## Loops along boxes or octrees -/

def grGeomInLoop (fuel : ℕ) (solid : GrGeomSolid) (r : ℤ) (region : Subgrid) : Except Fault (List Cell) :=
  if r = 0 ∧ solid.interiorBoxes.isSome then grGeomInLoopBoxes solid region
  else octreeInteriorNodeLoop fuel (solid.origin r) solid.data (solid.levelAt r) region fun _ c => [c]

def grGeomSurfLoop (fuel : ℕ) (solid : GrGeomSolid) (r : ℤ) (region : Subgrid) :
    Except Fault (List (Cell × Face)) :=
  if r = 0 ∧ (solid.surfaceBoxes .F).isSome then grGeomSurfLoopBoxes solid region
  else octreeFaceLoop fuel (solid.origin r) solid.data (solid.levelAt r) region

def grGeomPatchLoop (fuel : ℕ) (solid : GrGeomSolid) (patch : Fin solid.patches.length) (r : ℤ)
    (region : Subgrid) : Except Fault (List (Cell × Face)) :=
  if r = 0 ∧ (solid.patchBoxes patch .F).isSome then grGeomPatchLoopBoxes solid patch region
  else octreeFaceLoop fuel (solid.origin r) (solid.patches.get patch) (solid.levelAt r) region

/-! ## Tags -/

/-- The values of an indicator vector. -/
abbrev TagData := Cell → BitVec 32

def tagInterior (visited : List Cell) : TagData :=
  visited.foldl (fun tags c => Function.update tags c 1) fun _ => 0

/-- `1 << PV_f`. -/
def faceTag (f : Face) : BitVec 32 := 1#32 <<< f.index

def tagFaces (visited : List (Cell × Face)) : TagData :=
  visited.foldl (fun tags cf => Function.update tags cf.1 (tags cf.1 ||| faceTag cf.2)) fun _ => 0

/-- The tags on the subgrids of a process, from a loop over each of them. -/
def tagSubgrids {β : Type} (subgrids : SubgridArray) (loop : Subgrid → Except Fault (List β))
    (tag : List β → TagData) : Except Fault TagData := do
  let visited ← subgrids.mapM loop
  .ok (tag visited.flatten)

def updateAllShape : StencilShape := [(-1, 0, 0), (1, 0, 0), (0, -1, 0), (0, 1, 0), (0, 0, -1), (0, 0, 1)]

/-- The update of a vector with `VectorUpdateAll`: each box of the receive region takes the values
that its process has. -/
def vectorUpdateAll (allSubgrids : SubgridArray) (myProc : ℤ) (tagsOn : ℤ → Except Fault TagData) :
    Except Fault TagData := do
  let tags ← tagsOn myProc
  let recvRegion := (commRegFromStencil (gridOn allSubgrids myProc) updateAllShape).recvRegion.flatten
  let received ← recvRegion.mapM fun u => do
    let values ← tagsOn u.process
    .ok (u, values)
  .ok fun c =>
    match received.find? fun uv => c ∈ uv.1.cells with
    | some uv => uv.2 c
    | none => tags c

/-! ## Boxes -/

/-- The boxes for the cells in the interior, on the process with the one subgrid `subgrid`. -/
def computeInteriorBoxes (fuel : ℕ) (allSubgrids : SubgridArray) (subgrid : Subgrid) (solid : GrGeomSolid) :
    Except Fault GrGeomSolid := do
  let tags ← vectorUpdateAll allSubgrids subgrid.process fun q =>
    tagSubgrids (getGridSubgrids allSubgrids q) (fun s => grGeomInLoop fuel solid s.rx s) tagInterior
  let boxes ← bergerRigoutsos fuel ⟨subgrid, tags⟩ (1, 1, 1) 1 []
  .ok { solid with interiorBoxes := some boxes }

/-- The common part of `ComputeSurfaceBoxes` and `ComputePatchBoxes`: one list for each face. -/
def computeFaceBoxes (fuel : ℕ) (allSubgrids : SubgridArray) (subgrid : Subgrid)
    (loop : Subgrid → Except Fault (List (Cell × Face))) : Except Fault (List BoxList) := do
  let tags ← vectorUpdateAll allSubgrids subgrid.process fun q =>
    tagSubgrids (getGridSubgrids allSubgrids q) loop tagFaces
  Face.all.mapM fun f => bergerRigoutsos fuel ⟨subgrid, tags⟩ (1, 1, 1) (faceTag f) []

def computeSurfaceBoxes (fuel : ℕ) (allSubgrids : SubgridArray) (subgrid : Subgrid) (solid : GrGeomSolid) :
    Except Fault GrGeomSolid := do
  let boxes ← computeFaceBoxes fuel allSubgrids subgrid fun s => grGeomSurfLoop fuel solid s.rx s
  .ok { solid with surfaceBoxes := fun f => boxes[f.index]? }

def computePatchBoxes (fuel : ℕ) (allSubgrids : SubgridArray) (subgrid : Subgrid) (solid : GrGeomSolid)
    (patch : Fin solid.patches.length) : Except Fault GrGeomSolid := do
  let boxes ← computeFaceBoxes fuel allSubgrids subgrid fun s => grGeomPatchLoop fuel solid patch s.rx s
  .ok { solid with patchBoxes := Function.update solid.patchBoxes patch fun f => boxes[f.index]? }

end ParFlow.Geom

/-! Triangle intersection lists (`grgeom_list.c`). Members live in a heap and are reached by pointers; reading or
writing through `NULL` or freed memory is a fault. A `while` loop takes fuel and running out of it is an error of its
own. Values are elements of a linear order. -/

namespace ParFlow.Geom

open FuelRun LinkedChain

/-- The data of a `ListMember`; its `next_list_member` is the pointer of its cell. -/
structure ListMember (K : Type) where
  value : K
  normalComponent : ℤ
  triangleId : ℤ
  deriving DecidableEq, Repr

/-- The head of a list, and the memory. -/
structure ListState (K : Type) where
  head : Option Addr
  heap : Heap (ListMember K)

variable {K : Type}

/-- `a` is what the allocation returns. -/
def newListMember (h : Heap (ListMember K)) (a : Addr) (value : K) (normalComponent triangleId : ℤ) : Heap (ListMember K) :=
  Function.update h a (some ⟨⟨value, normalComponent, triangleId⟩, none⟩)

def freeListMember (h : Heap (ListMember K)) : Option Addr → Heap (ListMember K)
  | none => h
  | some a => Function.update h a none

/-- `if (current_member != NULL) next_member = ListMemberNextListMember(current_member)`. -/
def fetchNext (h : Heap (ListMember K)) (current next : Option Addr) : Except Fault (Option Addr) :=
  match current with
  | none => .ok next
  | some a => do
    let c ← load h (some a)
    .ok c.next

theorem fetchNext_eq {h : Heap (ListMember K)} {q : Option Addr} {a : Addr} {m : ListMember K} (ha : h a = some ⟨m, q⟩) (next : Option Addr) :
    fetchNext h (some a) next = .ok q := by
  show (do
    let c ← load h (some a)
    .ok c.next) = _
  rw [load_eq ha]
  rfl

section

variable [LinearOrder K]

/-- Whether the search for the place of a new member ends at this one. -/
def listInsertStops (current member : ListMember K) : Bool :=
  if current.value > member.value then true
  else if current.value = member.value then decide (current.triangleId ≥ member.triangleId)
  else false

/-- The loop of `ListInsert`; returns `previous_member` and `current_member`. -/
def listInsertLoop (h : Heap (ListMember K)) (member : Option Addr) :
    ℕ → Option Addr → Option Addr → Option Addr → Except Fault (Option Addr × Option Addr)
  | 0, _, _, _ => .error .fuel
  | _ + 1, previous, none, _ => .ok (previous, none)
  | fuel + 1, previous, some current, next => do
    let c ← load h (some current)
    let m ← load h member
    if listInsertStops c.val m.val then .ok (previous, some current)
    else do
      let next' ← fetchNext h next next
      listInsertLoop h member fuel (some current) next next'

def listInsert (fuel : ℕ) (member : Option Addr) (S : ListState K) : Except Fault (ListState K) := do
  let next ← fetchNext S.heap S.head none
  let (previous, current) ← listInsertLoop S.heap member fuel none S.head next
  let h ← setNext S.heap member current
  match previous with
  | some p => do
    let h ← setNext h (some p) member
    .ok { S with heap := h }
  | none => .ok ⟨member, h⟩

end

/-- Returns whether the member was found and deleted. -/
def listDelete (fuel : ℕ) (member : Option Addr) (S : ListState K) : Except Fault (ListState K × Bool) := do
  let (previous, current) ← walk S.heap (fun a _ => decide (some a = member)) fuel none S.head
  match current with
  | none => .ok (S, false)
  | some _ =>
    match previous with
    | some p => do
      let m ← load S.heap member
      let h ← setNext S.heap (some p) m.next
      .ok ({ S with heap := freeListMember h member }, true)
    | none => .ok (⟨none, freeListMember S.heap member⟩, true)

/-! ## Searches -/

/-- The loop of the searches: the first member that passes the test, or `NULL`. -/
def listFind (test : ListMember K → Bool) (fuel : ℕ) (S : ListState K) : Except Fault (Option Addr) := do
  let (_, current) ← walk S.heap (fun _ m => test m) fuel none S.head
  .ok current

section

variable [DecidableEq K]

def listSearch (value : K) (normalComponent triangleId : ℤ) : ℕ → ListState K → Except Fault (Option Addr) :=
  listFind fun m => decide (m.value = value) && decide (m.normalComponent = normalComponent) &&
    decide (m.triangleId = triangleId)

def listValueSearch (value : K) : ℕ → ListState K → Except Fault (Option Addr) :=
  listFind fun m => decide (m.value = value)

def listValueNormalComponentSearch (value : K) (normalComponent : ℤ) : ℕ → ListState K → Except Fault (Option Addr) :=
  listFind fun m => decide (m.value = value) && decide (m.normalComponent = normalComponent)

end

def listTriangleIDSearch (triangleId : ℤ) : ℕ → ListState K → Except Fault (Option Addr) :=
  listFind fun m => decide (m.triangleId = triangleId)

end ParFlow.Geom
