import ParFlow.Lib.Numerals
import ParFlow.Lib.TriangleSurface
import ParFlow.Geom.OctreeDefs
import ParFlow.Topo.UpstreamDefs

/-! `MakePatchySolid` of the tools (`solidtools.c`): the columns of a mask with the value 1 make a solid, and any other value
next to them names a patch. A first pass counts the faces of every patch, a second one adds the points and writes the faces. -/

namespace ParFlow.PatchySolid

open IntLoop TriangleSurface
open scoped Numerals
open ParFlow.Pfb (Databox)
open ParFlow.Topo (coeffAt gridLoop)

/-- Why a run gives no file: it leaves a table or a grid, or it returns an error. -/
inductive Stop where
  | bounds
  | status (code : ℤ)
  deriving DecidableEq, Repr

/-- `np_tot` -/
def npTot : ℤ := 30

def scanArray (val : ℤ) (inList : ℤ → ℤ) (len : ℤ) : ℤ := ((upto 0 len).find? fun i => inList i = val).getD (-1)

def bump (counts : ℤ → ℤ) (k : ℤ) : ℤ → ℤ := Function.update counts k (counts k + 1)

/-- The faces of a cell, in the order of `DefPatches`. -/
def faceOrder : List Side := [.bottom, .top, .west, .east, .south, .north]

def faceIndex : Side → ℤ
  | .bottom => 0
  | .top => 1
  | .west => 2
  | .east => 3
  | .south => 4
  | .north => 5

def defPatches (i : ℤ) : ℤ := -1 - i

section Mask

variable {K : Type} [Field K] [LinearOrder K] [FloorRing K] (msk : Databox K)

/-- `mask_val = *DataboxCoeff(msk, i, j, 0)`; the fraction is dropped. -/
def maskVal (c : ℤ × ℤ) : ℤ := if coeffAt msk c.1 c.2 < 0 then ⌈coeffAt msk c.1 c.2⌉ else ⌊coeffAt msk c.1 c.2⌋

/-- The faces for the default patches. -/
def AtEdge (c : ℤ × ℤ) : Side → Prop
  | .bottom => True
  | .top => True
  | .west => c.1 = 0
  | .east => c.1 = msk.nx - 1
  | .south => c.2 = 0
  | .north => c.2 = msk.ny - 1

instance (c : ℤ × ℤ) : ∀ side, Decidable (AtEdge msk c side)
  | .bottom => inferInstanceAs (Decidable True)
  | .top => inferInstanceAs (Decidable True)
  | .west => inferInstanceAs (Decidable (c.1 = 0))
  | .east => inferInstanceAs (Decidable (c.1 = msk.nx - 1))
  | .south => inferInstanceAs (Decidable (c.2 = 0))
  | .north => inferInstanceAs (Decidable (c.2 = msk.ny - 1))

/-- The faces whose other side is in the mask. -/
def HasNeighbour (c : ℤ × ℤ) : Side → Prop
  | .bottom => False
  | .top => False
  | .west => c.1 > 0
  | .east => c.1 < msk.nx - 1
  | .south => c.2 > 0
  | .north => c.2 < msk.ny - 1

instance (c : ℤ × ℤ) : ∀ side, Decidable (HasNeighbour msk c side)
  | .bottom => inferInstanceAs (Decidable False)
  | .top => inferInstanceAs (Decidable False)
  | .west => inferInstanceAs (Decidable (c.1 > 0))
  | .east => inferInstanceAs (Decidable (c.1 < msk.nx - 1))
  | .south => inferInstanceAs (Decidable (c.2 > 0))
  | .north => inferInstanceAs (Decidable (c.2 < msk.ny - 1))

/-! ## The first pass -/

structure Tally where
  anyZeros : ℤ
  defPCounts : ℤ → ℤ
  usrPatches : ℤ → ℤ
  usrPCounts : ℤ → ℤ
  npUsr : ℤ

def Tally.start : Tally := ⟨0, fun _ => 0, fun _ => -99999, fun _ => 0, -1⟩

/-- The block for one neighbour. The new index is used before the table is known to be long enough. -/
def tallyNeighbour (s : Tally) (testVal : ℤ) : Except Stop Tally :=
  if testVal ≠ 1 then
    let idx := scanArray testVal s.usrPatches npTot
    if idx < 0 then
      let npUsr := s.npUsr + 1
      if npUsr > npTot then .error (.status (-2))
      else if npUsr < npTot then
        .ok { s with
          usrPatches := Function.update s.usrPatches npUsr testVal
          usrPCounts := bump s.usrPCounts npUsr
          npUsr := npUsr }
      else .error .bounds
    else .ok { s with usrPCounts := bump s.usrPCounts idx }
  else .ok s

/-- The values of the neighbours of a cell. -/
def neighbourVals (c : ℤ × ℤ) : List ℤ :=
  (faceOrder.filter (HasNeighbour msk c ·)).map fun side => maskVal msk (c + side.offset)

def tallyCell (s : Tally) (c : ℤ × ℤ) : Except Stop Tally :=
  let s := if s.anyZeros = 0 ∧ maskVal msk c = 0 then { s with anyZeros := 1 } else s
  if maskVal msk c = 1 then
    (neighbourVals msk c).foldlM tallyNeighbour { s with
      defPCounts := (faceOrder.filter (AtEdge msk c ·)).foldl (fun counts side => bump counts (faceIndex side)) s.defPCounts }
  else .ok s

def tallyMask : Except Stop Tally := (gridLoop msk.nx msk.ny).foldlM (tallyCell msk) Tally.start

end Mask

/-! ## The order of the patches -/

/-- The sorted arrays and the temporary ones. -/
structure Ranking where
  usrPatches : ℤ → ℤ
  usrPCounts : ℤ → ℤ
  tempUPLst : ℤ → ℤ
  tempUPCnt : ℤ → ℤ

def fill (a : ℤ → ℤ) (n v : ℤ) : ℤ → ℤ := (upto 0 n).foldl (fun a i => Function.update a i v) a

/-- `min_val` and `min_idx`. -/
def findMin (lst : ℤ → ℤ) (j n : ℤ) : ℤ × ℤ :=
  (upto (j + 1) n).foldl (fun m k => if lst k < m.1 then (lst k, k) else m) (lst j, j)

def rankPatch (n : ℤ) (s : Ranking) (j : ℤ) : Ranking :=
  let minIdx := (findMin s.tempUPLst j n).2
  let count := s.tempUPCnt minIdx
  let patch := s.tempUPLst minIdx
  { usrPCounts := Function.update s.usrPCounts j count
    usrPatches := Function.update s.usrPatches j patch
    tempUPLst := Function.update (Function.update s.tempUPLst minIdx (s.tempUPLst j)) j patch
    tempUPCnt := Function.update (Function.update s.tempUPCnt minIdx (s.tempUPCnt j)) j count }

def sortPatches (s : Tally) : Tally :=
  let n := s.npUsr + 1
  let r := (upto 0 n).foldl (rankPatch n)
    ⟨fill s.usrPatches n (-99999), fill s.usrPCounts n (-1), s.usrPatches, s.usrPCounts⟩
  { s with usrPatches := r.usrPatches, usrPCounts := r.usrPCounts }

/-! ## The tables -/

structure PatchInfo where
  pWrite : ℤ
  value : ℤ
  patchCellCount : ℤ
  startIdx : ℤ
  endIdx : ℤ
  actFaces : ℤ → ℤ

structure PatchTable where
  allPatches : ℤ → PatchInfo
  np : ℤ
  nonBlanks : ℤ

/-- The entry of a patch with faces. -/
def PatchTable.activate (s : PatchTable) (i value count : ℤ) : PatchTable :=
  let endIdx := s.np + count - 1
  ⟨Function.update s.allPatches i ⟨-1, value, count, s.np, endIdx, fun _ => 0⟩, endIdx + 1, s.nonBlanks + 1⟩

section Table

variable (len : ℤ) (t : Tally)

def putDefault (s : PatchTable) (i : ℤ) : Except Stop PatchTable :=
  if i < len then
    if t.defPCounts i > 0 then .ok (s.activate i (defPatches i) (t.defPCounts i))
    else .ok { s with allPatches := Function.update s.allPatches i ⟨-1, defPatches i, 0, -1, -1, fun _ => 0⟩ }
  else .error .bounds

def putUser (s : PatchTable) (i : ℤ) : Except Stop PatchTable :=
  if t.usrPCounts (i - 6) > 0 then
    if i < len then .ok (s.activate i (t.usrPatches (i - 6)) (t.usrPCounts (i - 6))) else .error .bounds
  else .error (.status (-1))

/-- The table of the patches, which has `len` entries. -/
def buildTable (blank : ℤ → PatchInfo) : Except Stop PatchTable := do
  let s ← (upto 0 6).foldlM (putDefault len t) ⟨blank, 0, 0⟩
  (upto 6 (6 + t.npUsr + 1)).foldlM (putUser len t) s

def buildValues (allPatches : ℤ → PatchInfo) (blank : ℤ → ℤ) : Except Stop (ℤ → ℤ) :=
  (upto 0 (6 + t.npUsr + 1)).foldlM (fun patchValues i =>
    if i < len then .ok (Function.update patchValues i (allPatches i).value) else .error .bounds) blank

/-- `cell_faces` -/
def countFaces : ℤ := ((upto 0 6).map t.defPCounts).sum + ((upto 0 npTot).map t.usrPCounts).sum

end Table

/-! ## The second pass -/

/-- An entry of `Patch`: two triangles, the value of the patch, and the face. -/
structure FaceRecord where
  first : ℤ × ℤ × ℤ
  second : ℤ × ℤ × ℤ
  value : ℤ
  face : ℤ
  deriving DecidableEq, Repr

def FaceRecord.blank : FaceRecord := ⟨(-1111, -1111, -1111), (-1111, -1111, -1111), -1111, -1111⟩

/-- The points, the patches, and what was assigned to which entry of `Patch`, in this order. -/
structure Build (K : Type) where
  points : List (K × K × K)
  allPatches : ℤ → PatchInfo
  writes : List (ℤ × FaceRecord)

def iOff (km : Fin 8) : ℤ := if km = 1 ∨ km = 3 ∨ km = 5 ∨ km = 7 then 1 else 0

def jOff (km : Fin 8) : ℤ := if km = 2 ∨ km = 3 ∨ km = 6 ∨ km = 7 then 1 else 0

/-- The corners of the two triangles of a face. -/
def faceCorners : Side → (Fin 8 × Fin 8 × Fin 8) × (Fin 8 × Fin 8 × Fin 8)
  | .bottom => ((1, 0, 2), (2, 3, 1))
  | .top => ((6, 4, 5), (5, 7, 6))
  | .west => ((6, 2, 0), (0, 4, 6))
  | .east => ((1, 3, 7), (7, 5, 1))
  | .south => ((4, 0, 1), (1, 5, 4))
  | .north => ((3, 2, 6), (6, 7, 3))

def faceRecord (ourPnts : Fin 8 → ℤ) (side : Side) (value : ℤ) : FaceRecord :=
  ⟨mapCorners ourPnts (faceCorners side).1, mapCorners ourPnts (faceCorners side).2, value, faceIndex side⟩

section Pass

variable {K : Type} [Field K] [LinearOrder K] [FloorRing K] (checked : Bool) (msk top bot : Databox K)

/-- `add_pnt`: a corner is new unless an earlier column has it. -/
def AddPnt (c : ℤ × ℤ) (km : Fin 8) : Prop :=
  ¬ (c.1 > 0 ∧ coeffAt msk (c.1 - 1) c.2 = 1 ∧ (km = 0 ∨ km = 2 ∨ km = 4 ∨ km = 6)) ∧
  ¬ ((c.1 > 0 ∧ c.2 > 0) ∧ coeffAt msk (c.1 - 1) (c.2 - 1) = 1 ∧ (km = 0 ∨ km = 4)) ∧
  ¬ (c.2 > 0 ∧ coeffAt msk c.1 (c.2 - 1) = 1 ∧ (km = 0 ∨ km = 1 ∨ km = 4 ∨ km = 5)) ∧
  ¬ ((c.1 < msk.nx - 1 ∧ c.2 > 0) ∧ coeffAt msk (c.1 + 1) (c.2 - 1) = 1 ∧ (km = 1 ∨ km = 5))

instance (c : ℤ × ℤ) (km : Fin 8) : Decidable (AddPnt msk c km) := inferInstanceAs (Decidable (_ ∧ _))

/-- `*DataboxCoeff(d, i, j, 0)`; if it is checked, the cell must be one of the grid. -/
def readCoeff (d : Databox K) (i j : ℤ) : Except Stop K :=
  if checked ∧ ¬ ((0 ≤ i ∧ i < d.nx) ∧ 0 ≤ j ∧ j < d.ny) then .error .bounds else .ok (coeffAt d i j)

/-- `ix_off` and `jy_off`: differences at both sides of a cell, or twice the same one at an edge. -/
def mainOff (p n : ℤ) : Fin 4 → ℤ :=
  if p = 0 then ![1, 0, 1, 0] else if p + 1 = n then ![0, -1, 0, -1] else ![0, -1, 1, 0]

/-- `iy_off` and `jx_off`, with the offset at the far edge. -/
def crossOff (p n far : ℤ) : ℤ := if p = 0 then 0 else if p + 1 = n then far else 0

/-- The mean of two differences along an axis; both axes divide by `DX`. -/
def meanSlope (d : Databox K) (i j : Fin 4 → ℤ) : Except Stop K := do
  let a ← readCoeff checked d (i 0) (j 0)
  let b ← readCoeff checked d (i 1) (j 1)
  let a' ← readCoeff checked d (i 2) (j 2)
  let b' ← readCoeff checked d (i 3) (j 3)
  .ok (((a - b) / msk.dx + (a' - b') / msk.dx) / 2)

/-- The elevation of a corner, from the bottom grid for the first four. -/
def elevation (c : ℤ × ℤ) (km : Fin 8) : Except Stop K := do
  let d := if km = 0 ∨ km = 1 ∨ km = 2 ∨ km = 3 then bot else top
  let dxb ← meanSlope checked msk d (fun k => c.1 + mainOff c.1 msk.nx k) (fun _ => c.2 + crossOff c.2 msk.ny (-2))
  let dyb ← meanSlope checked msk d (fun _ => c.1 + crossOff c.1 msk.nx (-1)) (fun k => c.2 + mainOff c.2 msk.ny k)
  let dxb := if iOff km = 1 then -dxb else dxb
  let dyb := if jOff km = 1 then -dyb else dyb
  let z ← readCoeff checked d c.1 c.2
  .ok (z - dxb * msk.dx / 2 - dyb * msk.dy / 2)

/-- Where a corner stands in the plane. -/
def pointXY (p : ℤ × ℤ) : K × K := (msk.x + p.1 * msk.dx, msk.y + p.2 * msk.dy)

/-- `for ( ; m > 0; m = m - 1)`, until a point with these coordinates is found. -/
def searchBack (points : List (K × K × K)) (xy : K × K) (m : ℤ) : ℤ :=
  ((upto 1 (m + 1)).reverse.find? fun m => ∃ p ∈ points[m.toNat]?, (p.1, p.2.1) = xy).getD (min m 0)

/-- The number of an old point; a bottom point is the second one that is found. -/
def findPoint (points : List (K × K × K)) (xy : K × K) (km : Fin 8) : ℤ :=
  let m := searchBack points xy (points.length - 1)
  if km ≤ 3 then searchBack points xy (m - 1) else m

/-- The round of the loop for a corner; the state is `Xp_Act`, as far as it is used, and `our_pnts`. -/
def addPoint (c : ℤ × ℤ) (s : List (K × K × K) × (Fin 8 → ℤ)) (km : Fin 8) : Except Stop (List (K × K × K) × (Fin 8 → ℤ)) := do
  let xy := pointXY msk (c.1 + iOff km, c.2 + jOff km)
  if AddPnt msk c km then
    if (s.1.length : ℤ) < 2 * ((msk.nx + 1) * (msk.ny + 1)) then
      let z ← elevation checked msk top bot c km
      .ok (s.1 ++ [(xy.1, xy.2, z)], Function.update s.2 km s.1.length)
    else .error .bounds
  else .ok (s.1, Function.update s.2 km (findPoint s.1 xy km))

/-- The assignments to an entry of `Patch` and to the entry of its patch in `AllPatches`. -/
def writeFace (cellFaces : ℤ) (s : Build K) (w : ℤ × FaceRecord) : Except Stop (Build K) :=
  let patch := s.allPatches w.1
  let nT := patch.startIdx + (patch.pWrite + 1)
  if 0 ≤ nT ∧ nT < cellFaces then
    .ok { s with
      allPatches := Function.update s.allPatches w.1
        { patch with pWrite := patch.pWrite + 1, actFaces := bump patch.actFaces w.2.face }
      writes := s.writes ++ [(nT, w.2)] }
  else .error .bounds

/-- The blocks for a face: at the edge, and for a user patch. -/
def writeSide (cellFaces npUsr : ℤ) (patchValues : ℤ → ℤ) (ourPnts : Fin 8 → ℤ) (c : ℤ × ℤ) (s : Build K) (side : Side) :
    Except Stop (Build K) := do
  let s ← if AtEdge msk c side then
      writeFace cellFaces s (faceIndex side, faceRecord ourPnts side (defPatches (faceIndex side)))
    else .ok s
  if HasNeighbour msk c side then
    let testVal := maskVal msk (c + side.offset)
    if testVal = 0 ∨ testVal > 1 then
      if testVal < 0 then .error (.status (-2))
      else
        let idx := scanArray testVal patchValues (6 + npUsr + 1)
        if idx < 0 then .error (.status (-1)) else writeFace cellFaces s (idx, faceRecord ourPnts side testVal)
    else .ok s
  else .ok s

def buildCell (cellFaces npUsr : ℤ) (patchValues : ℤ → ℤ) (s : Build K) (c : ℤ × ℤ) : Except Stop (Build K) :=
  if maskVal msk c = 1 then do
    let (points, ourPnts) ← (List.finRange 8).foldlM (addPoint checked msk top bot c) (s.points, fun _ => -1)
    faceOrder.foldlM (writeSide msk cellFaces npUsr patchValues ourPnts c) { s with points := points }
  else .ok s

/-- What the file is written from. -/
structure Solid (K : Type) where
  tally : Tally
  cellFaces : ℤ
  nonBlanks : ℤ
  build : Build K

/-- Both passes. The tables of the patches are declared with `6 + np_usr` entries; here they have `room` more. -/
def buildSolid (room : ℤ) : Except Stop (Solid K) := do
  if msk.nz ≠ 1 then .error (.status (-2))
  else if msk.nx ≠ top.nx ∨ msk.nx ≠ bot.nx ∨ msk.ny ≠ top.ny ∨ msk.ny ≠ bot.ny ∨ msk.nz ≠ top.nz ∨ msk.nz ≠ bot.nz then
    .error (.status (-2))
  else
    let t ← tallyMask msk
    let t := sortPatches t
    let cellFaces := countFaces t
    let len := 6 + t.npUsr + room
    let table ← buildTable len t fun _ => ⟨0, 0, 0, 0, 0, fun _ => 0⟩
    let patchValues ← buildValues len t table.allPatches fun _ => 0
    let build ← (gridLoop msk.nx msk.ny).foldlM (buildCell checked msk top bot cellFaces t.npUsr patchValues)
      ⟨[], table.allPatches, []⟩
    .ok ⟨t, cellFaces, table.nonBlanks, build⟩

end Pass

/-! ## The file -/

namespace Solid

variable {K : Type} (s : Solid K)

/-- `Patch` after all assignments. -/
def patch : ℤ → FaceRecord := s.build.writes.foldl (fun patch w => Function.update patch w.1 w.2) fun _ => FaceRecord.blank

def triangles : List (ℤ × ℤ × ℤ) := (upto 0 s.cellFaces).flatMap fun i => [(s.patch i).first, (s.patch i).second]

/-- The patches of the table, in its order. -/
def patchInfos : List PatchInfo := (upto 0 (6 + s.tally.npUsr + 1)).map s.build.allPatches

/-- The number of patches as it is declared. -/
def patchCount (subPatches : ℤ) : ℤ :=
  if subPatches = 1 then
    (s.patchInfos.map fun p => (((upto 0 6).filter fun k => p.value ≠ 0 ∧ p.actFaces k > 0).length : ℤ)).sum
  else if s.tally.anyZeros = 1 then s.nonBlanks - 1
  else s.nonBlanks

/-- A patch as one record: the number of its triangles and their list. -/
def wholePatch (p : PatchInfo) : ℤ × List ℤ := (p.patchCellCount * 2, upto (2 * p.startIdx) (2 * p.endIdx + 1 + 1))

/-- The record of the faces of a patch with one direction. -/
def subPatch (p : PatchInfo) (k : ℤ) : ℤ × List ℤ :=
  (p.actFaces k * 2, ((upto p.startIdx (p.endIdx + 1)).filter fun j => (s.patch j).face = k).flatMap fun j => [2 * j, 2 * j + 1])

def patches (subPatches : ℤ) : List (ℤ × List ℤ) :=
  (s.patchInfos.filter fun p => p.patchCellCount > 0 ∧ p.value ≠ 0).flatMap fun p =>
    if subPatches = 1 then ((upto 0 6).filter fun k => p.actFaces k > 0).map (s.subPatch p) else [wholePatch p]

end Solid

/-- The numbers of a solid file. The text form prints them and the binary form stores them. -/
structure SolidFile (K : Type) where
  binary : Bool
  vertexCount : ℤ
  vertices : List (K × K × K)
  triangleCount : ℤ
  triangles : List (ℤ × ℤ × ℤ)
  patchCount : ℤ
  patches : List (ℤ × List ℤ)

def writeSolid {K : Type} (s : Solid K) (subPatches binOut : ℤ) : SolidFile K where
  binary := binOut ≠ 0
  vertexCount := s.build.points.length
  vertices := s.build.points
  triangleCount := s.cellFaces * 2
  triangles := s.triangles
  patchCount := s.patchCount subPatches
  patches := s.patches subPatches

/-- A run that returns 0 has written the file. -/
def makePatchySolid {K : Type} [Field K] [LinearOrder K] [FloorRing K] (room : ℤ) (checked : Bool) (msk top bot : Databox K)
    (subPatches binOut : ℤ) : Except Stop (SolidFile K) := do
  let s ← buildSolid checked msk top bot room
  .ok (writeSolid s subPatches binOut)

end ParFlow.PatchySolid
