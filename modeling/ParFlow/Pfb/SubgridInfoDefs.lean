import ParFlow.Grid.BoxLoop
import ParFlow.Grid.SubgridDefs
import ParFlow.Grid.GridDefs
import ParFlow.Comm.ComputeDefs

/-! The layout of a PFB file, twice: as `io.py` computes it before it writes or reads a file, and
as the processes of the simulator write it (`write_parflow_binary.c`, `amps_ffopen.c`). -/

namespace ParFlow.Pfb

open IntLoop

/-! ## The tools

Quotients of `int`s are exact here; `int(a / b)` truncates and `np.floor` rounds down. -/

def getMaingridAndRemainder (nx ny nz p q r : ℤ) : Cell × Cell :=
  ((nx.tdiv p, ny.tdiv q, nz.tdiv r), (nx.fmod p, ny.fmod q, nz.fmod r))

def getSubgridLoc (selSubgrid p q _r : ℤ) : ℤ × ℤ × ℤ :=
  let sgR := selSubgrid.fdiv (p * q)
  let sgQ := (selSubgrid - sgR * p * q).fdiv p
  let sgP := selSubgrid - sgR * (p * q) - sgQ * p
  (sgP, sgQ, sgR)

def subgridLowerLeft (mg sg rm : ℤ × ℤ × ℤ) : Cell :=
  (sg.1 * mg.1 + min sg.1 rm.1, sg.2.1 * mg.2.1 + min sg.2.1 rm.2.1, sg.2.2 * mg.2.2 + min sg.2.2 rm.2.2)

def subgridSize (mg sg rm : ℤ × ℤ × ℤ) : Cell :=
  (if sg.1 ≥ rm.1 then mg.1 else mg.1 + 1, if sg.2.1 ≥ rm.2.1 then mg.2.1 else mg.2.1 + 1,
    if sg.2.2 ≥ rm.2.2 then mg.2.2 else mg.2.2 + 1)

/-- The number of cells of a shape. -/
def volume (shape : Cell) : ℤ := shape.1 * shape.2.1 * shape.2.2

structure SubgridInfo where
  subgridOffsets : List ℤ
  subgridLocs : List (ℤ × ℤ × ℤ)
  subgridBeginIdxs : List Cell
  subgridShapes : List Cell
  deriving DecidableEq, Repr

/-- The loop variables of `precalculate_subgrid_info`: the offset and the last shape. -/
structure InfoState where
  off : ℤ
  shape : Cell
  info : SubgridInfo

def infoStep (nx ny nz p q r : ℤ) (st : InfoState) (sgNum : ℤ) : InfoState :=
  let off := st.off + (36 + 8 * (st.shape.1 * st.shape.2.1 * st.shape.2.2))
  let mgrm := getMaingridAndRemainder nx ny nz p q r
  let loc := getSubgridLoc sgNum p q r
  let shape := subgridSize mgrm.1 loc mgrm.2
  { off := off
    shape := shape
    info :=
      { subgridOffsets := st.info.subgridOffsets ++ [off]
        subgridLocs := st.info.subgridLocs ++ [loc]
        subgridBeginIdxs := st.info.subgridBeginIdxs ++ [subgridLowerLeft mgrm.1 loc mgrm.2]
        subgridShapes := st.info.subgridShapes ++ [shape] } }

def precalculateSubgridInfo (nx ny nz p q r : ℤ) : SubgridInfo :=
  ((upto 0 (p * q * r)).foldl (infoStep nx ny nz p q r) ⟨64, (0, 0, 0), ⟨[], [], [], []⟩⟩).info

/-- The lines of the `.dist` file. -/
def writeDist (sgOffs : List ℤ) : List ℤ := sgOffs.mapIdx fun i s => if i = 0 then s - 100 else s - 36

/-! ## The simulator -/

def sizeofInt : ℤ := 4

def sizeofDouble : ℤ := 8

/-- What a process writes to its part of the file. -/
inductive Field (α : Type) where
  | int (v : ℤ)
  | double (w : α)

def Field.size {α : Type} : Field α → ℤ
  | .int _ => sizeofInt
  | .double _ => sizeofDouble

def fieldsSize {α : Type} (fields : List (Field α)) : ℤ := (fields.map Field.size).sum

def sizeofPFBinarySubvector {α : Type} (subvector : Subvector α) (subgrid : Subgrid) : ℤ :=
  (boxLoopI1 subgrid.ix subgrid.iy subgrid.iz subgrid.nx subgrid.ny subgrid.nz
    0 subvector.dataSpace.nx subvector.dataSpace.ny 1 1 1).foldl (fun size _ => size + sizeofDouble) (9 * sizeofInt)

/-- The nine integers before the data of a subgrid. -/
def subgridHeader {α : Type} (subgrid : Subgrid) : List (Field α) :=
  [.int subgrid.ix, .int subgrid.iy, .int subgrid.iz, .int subgrid.nx, .int subgrid.ny, .int subgrid.nz,
    .int subgrid.rx, .int subgrid.ry, .int subgrid.rz]

def writePFBinarySubvector {α : Type} (subvector : Subvector α) (subgrid : Subgrid) : List (Field α) :=
  let start := subvectorEltIndex subvector.dataSpace subgrid.ix subgrid.iy subgrid.iz
  subgridHeader subgrid ++
    (boxLoopI1 subgrid.ix subgrid.iy subgrid.iz subgrid.nx subgrid.ny subgrid.nz
      0 subvector.dataSpace.nx subvector.dataSpace.ny 1 1 1).map fun c => .double (subvector.data (start + c.2))

/-- The background of the grid, as it stands in the file header. -/
structure Background (α : Type) where
  x : α
  y : α
  z : α
  nx : ℤ
  ny : ℤ
  nz : ℤ
  dx : α
  dy : α
  dz : α

def fileHeader {α : Type} (bg : Background α) (numSubgrids : ℤ) : List (Field α) :=
  [.double bg.x, .double bg.y, .double bg.z, .int bg.nx, .int bg.ny, .int bg.nz, .double bg.dx, .double bg.dy,
    .double bg.dz, .int numSubgrids]

section Write

variable {α : Type} (bg : Background α) (numSubgrids p : ℤ) (subvectors : List (Subvector α × Subgrid))

/-- The size that process `p` announces. -/
def writePFBinarySize : ℤ :=
  subvectors.foldl (fun size s => size + sizeofPFBinarySubvector s.1 s.2)
    (if p = 0 then 6 * sizeofDouble + 4 * sizeofInt else 0)

/-- What process `p` writes, from its start in the file on. -/
def writePFBinary : List (Field α) :=
  (if p = 0 then fileHeader bg numSubgrids else []) ++ subvectors.flatMap fun s => writePFBinarySubvector s.1 s.2

end Write

/-- The positions that `amps_FFopen` hands out while it adds up the announced sizes. -/
def ampsFFopen (total : ℤ) : List ℤ → List ℤ
  | [] => []
  | size :: sizes => total :: ampsFFopen (total + size) sizes

end ParFlow.Pfb
