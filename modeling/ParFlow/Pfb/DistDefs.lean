import ParFlow.Lib.ByteStream
import ParFlow.Grid.Background
import ParFlow.Pfb.SubgridInfo
import ParFlow.Comm.VectorCells

/-! `pfdist`: the distribution of the tools (`usergrid.c`), `LoadParflowB` (`load.c`) and `ReadParflowB`
(`readdatabox.c`), and the file that the processes of the simulator write together. -/

namespace ParFlow.Pfb

open IntLoop ByteFile

/-- How an `int` and a `double` are written and read. -/
structure Encoding (α : Type) where
  int : ℤ → List UInt8
  double : α → List UInt8
  readInt : List UInt8 → ℤ
  readDouble : List UInt8 → α
  length_int : ∀ v, (int v).length = 4
  length_double : ∀ w, (double w).length = 8
  readInt_int : ∀ v, INT_MIN ≤ v → v ≤ INT_MAX → readInt (int v) = v
  readDouble_double : ∀ w, readDouble (double w) = w

def Encoding.field {α : Type} (enc : Encoding α) : Field α → List UInt8
  | .int v => enc.int v
  | .double w => enc.double w

structure Databox (α : Type) where
  nx : ℤ
  ny : ℤ
  nz : ℤ
  x : α
  y : α
  z : α
  dx : α
  dy : α
  dz : α
  coeffs : ℤ → α

/-- The index of `DataboxCoeff`. -/
def Databox.coeff {α : Type} (d : Databox α) (i j k : ℤ) : ℤ := k * d.ny * d.nx + j * d.nx + i

/-! ## The distribution of the tools -/

namespace Tools

def userGridMin (x y : ℤ) : ℤ := if x < y then x else y

def pqrToXyz (pqr mxyz lxyz xyz : ℤ) : ℤ := pqr * mxyz + userGridMin pqr lxyz + xyz

def pqrToNxyz (pqr mxyz lxyz : ℤ) : ℤ := if pqr < lxyz then mxyz + 1 else mxyz

def pqrToProcess (p q r P Q _R : ℤ) : ℤ := (r * Q + q) * P + p

/-- For a layout that is already chosen; `none` is the null pointer. -/
def distributeUserGrid (user : Subgrid) (numProcs P Q R : ℤ) : Option SubgridArray :=
  let x := user.ix
  let y := user.iy
  let z := user.iz
  let mx := user.nx.tdiv P
  let my := user.ny.tdiv Q
  let mz := user.nz.tdiv R
  let lx := user.nx.tmod P
  let ly := user.ny.tmod Q
  let lz := user.nz.tmod R
  if P * Q * R = numProcs then
    some ((upto 0 P).flatMap fun p => (upto 0 Q).flatMap fun q => (upto 0 R).map fun r =>
      newSubgrid (pqrToXyz p mx lx x) (pqrToXyz q my ly y) (pqrToXyz r mz lz z)
        (pqrToNxyz p mx lx) (pqrToNxyz q my ly) (pqrToNxyz r mz lz) 0 0 0 (pqrToProcess p q r P Q R))
  else none

end Tools

/-! ## Writing with the tools -/

section Load

variable {α : Type} (lower spacing : α × α × α) (databox : Databox α)

/-- The file header; the number of subgrids is the number of processes. -/
def loadHeader (numProcs : ℤ) : List (Field α) :=
  [.double lower.1, .double lower.2.1, .double lower.2.2, .int databox.nx, .int databox.ny, .int databox.nz,
    .double spacing.1, .double spacing.2.1, .double spacing.2.2, .int numProcs]

def loadSubgrid (s : Subgrid) : List (Field α) :=
  let ptr := databox.coeff s.ix s.iy s.iz
  [.int s.ix, .int s.iy, .int s.iz, .int s.nx, .int s.ny, .int s.nz, .int s.rx, .int s.ry, .int s.rz] ++
    (upto 0 s.nz).flatMap fun k => (upto 0 s.ny).flatMap fun j => (upto 0 s.nx).map fun i =>
      .double (databox.coeffs (ptr + j * databox.nx + k * (databox.nx * databox.ny) + i))

/-- What has been written to the file and to the `.dist` file. -/
structure LoadState (α : Type) where
  fields : List (Field α)
  filePos : ℤ
  distLines : List ℤ

def loadStep (numProcs : ℤ) (st : LoadState α) (s : Subgrid) : LoadState α :=
  let header := if s.process = 0 then loadHeader lower spacing databox numProcs else []
  let filePos := st.filePos + (if s.process = 0 then 6 * sizeofDouble + 4 * sizeofInt else 0) +
    (9 * sizeofInt + s.nx * s.ny * s.nz * sizeofDouble)
  { fields := st.fields ++ (header ++ loadSubgrid databox s)
    filePos := filePos
    distLines := st.distLines ++ [filePos] }

/-- One more than the largest process. -/
def loadNumProcs (allSubgrids : SubgridArray) : ℤ :=
  allSubgrids.foldl (fun n s => if s.process > n then s.process else n) (-1) + 1

def loadParflowB (allSubgrids : SubgridArray) : LoadState α :=
  let numProcs := loadNumProcs allSubgrids
  (upto 0 numProcs).foldl (fun st p => allSubgrids.foldl (fun st s =>
    if s.process = p then loadStep lower spacing databox numProcs st s else st) st) ⟨[], 0, [0]⟩

end Load

/-! ## Reading with the tools -/

namespace Tools

variable {α : Type} (enc : Encoding α)

def readInt : Reader ℤ := do
  let bs ← takeBytes 4
  pure (enc.readInt bs)

def readDouble : Reader α := do
  let bs ← takeBytes 8
  pure (enc.readDouble bs)

/-- `nx` doubles from the position `ptr` of the data on. -/
def readRow (nx : ℤ) (databox : Databox α) (ptr : ℤ) : Reader (Databox α) :=
  (upto 0 nx).foldlM (fun d i => do
    let w ← readDouble enc
    pure { d with coeffs := Function.update d.coeffs (ptr + i) w }) databox

def readSubgrid (databox : Databox α) (_nsg : ℕ) : Reader (Databox α) := do
  let x ← readInt enc
  let y ← readInt enc
  let z ← readInt enc
  let nx ← readInt enc
  let ny ← readInt enc
  let nz ← readInt enc
  let _rx ← readInt enc
  let _ry ← readInt enc
  let _rz ← readInt enc
  (upto 0 nz).foldlM (fun d k => (upto 0 ny).foldlM (fun d j => readRow enc nx d (d.coeff x (y + j) (z + k))) d) databox

/-- `none` for a file that is too short, where variables would keep what they held before. A negative
number of subgrids counts down beyond every file. -/
def readParflowB (defaultValue : α) : Reader (Databox α) := do
  let x ← readDouble enc
  let y ← readDouble enc
  let z ← readDouble enc
  let nx ← readInt enc
  let ny ← readInt enc
  let nz ← readInt enc
  let dx ← readDouble enc
  let dy ← readDouble enc
  let dz ← readDouble enc
  let numSubgrids ← readInt enc
  if numSubgrids < 0 then failure
  (List.range numSubgrids.toNat).foldlM (readSubgrid enc) ⟨nx, ny, nz, x, y, z, dx, dy, dz, fun _ => defaultValue⟩

end Tools

/-! ## The file of the simulator -/

section Simulator

variable {α : Type} (enc : Encoding α) (lower spacing : α × α × α) (subgrids : SubgridArray)
  (vec : Subgrid → Subvector α) (numProcs : ℤ)

/-- The numbers of subgrids, added up over the processes. -/
def numSubgridsAllReduce : ℤ := ((upto 0 numProcs).map fun n => ((getGridSubgrids subgrids n).length : ℤ)).sum

/-- What process `n` writes. -/
def rankFields (n : ℤ) : List (Field α) :=
  writePFBinary (headerBackground lower spacing (newGrid (getGridSubgrids subgrids n) subgrids))
    (numSubgridsAllReduce subgrids numProcs) n (rankSubvectors vec subgrids n)

/-- The single writes of all processes, each process from its start on. -/
def allWrites : List (ℕ × List UInt8) :=
  (List.zipWith (fun start n => placed start.toNat ((rankFields lower spacing subgrids vec numProcs n).map enc.field))
    (processStarts vec subgrids numProcs) (upto 0 numProcs)).flatten

end Simulator

end ParFlow.Pfb

/-! `WritePFSBinary` (`write_parflow_binary.c`): a file that lists the cells of every subgrid whose values are not
dropped. -/

namespace ParFlow.Pfb

open IntLoop

section Write

variable {α : Type} [LT α] [DecidableLT α] (fabs : α → α) (dropTolerance : α)

/-- The loop that counts, in the function that sizes a record and in the one that writes it. -/
def countPFSBinarySubvector (subvector : Subvector α) (subgrid : Subgrid) : ℤ :=
  let start := subvectorEltIndex subvector.dataSpace subgrid.ix subgrid.iy subgrid.iz
  (boxLoopI1 subgrid.ix subgrid.iy subgrid.iz subgrid.nx subgrid.ny subgrid.nz
    0 subvector.dataSpace.nx subvector.dataSpace.ny 1 1 1).foldl
    (fun n c => if fabs (subvector.data (start + c.2)) > dropTolerance then n + 1 else n) 0

def sizeofPFSBinarySubvector (subvector : Subvector α) (subgrid : Subgrid) : ℤ :=
  let n := countPFSBinarySubvector fabs dropTolerance subvector subgrid
  9 * sizeofInt + (sizeofInt + n * (3 * sizeofInt + sizeofDouble))

/-- A cell and its value. -/
def pointFields (c : Cell) (w : α) : List (Field α) := [.int c.1, .int c.2.1, .int c.2.2, .double w]

def writePFSBinarySubvector (subvector : Subvector α) (subgrid : Subgrid) : List (Field α) :=
  let start := subvectorEltIndex subvector.dataSpace subgrid.ix subgrid.iy subgrid.iz
  subgridHeader subgrid ++ .int (countPFSBinarySubvector fabs dropTolerance subvector subgrid) ::
    (boxLoopI1 subgrid.ix subgrid.iy subgrid.iz subgrid.nx subgrid.ny subgrid.nz
      0 subvector.dataSpace.nx subvector.dataSpace.ny 1 1 1).flatMap fun c =>
      if fabs (subvector.data (start + c.2)) > dropTolerance then pointFields c.1 (subvector.data (start + c.2)) else []

/-- The size that process `p` announces. -/
def writePFSBinarySize (p : ℤ) (subvectors : List (Subvector α × Subgrid)) : ℤ :=
  subvectors.foldl (fun size s => size + sizeofPFSBinarySubvector fabs dropTolerance s.1 s.2)
    (if p = 0 then 6 * sizeofDouble + 4 * sizeofInt else 0)

/-- What process `p` of `P` writes. The header ends with the number of processes. -/
def writePFSBinary (background : Background α) (P p : ℤ) (subvectors : List (Subvector α × Subgrid)) : List (Field α) :=
  (if p = 0 then fileHeader background P else []) ++
    subvectors.flatMap fun s => writePFSBinarySubvector fabs dropTolerance s.1 s.2

/-- The file, process by process. -/
def writePFSBinaryFile (background : Background α) (subgrids : SubgridArray) (vec : Subgrid → Subvector α) (P : ℤ) :
    List (Field α) :=
  (upto 0 P).flatMap fun p => writePFSBinary fabs dropTolerance background P p (rankSubvectors vec subgrids p)

end Write

/-! ## What the file should be -/

/-- A record of the file: the integers of a subgrid, a number of points and the points. -/
structure ScatteredRecord (α : Type) where
  subgrid : Subgrid
  count : ℤ
  points : List (Cell × α)

section Spec

variable {α : Type} [LT α] (fabs : α → α) (dropTolerance : α)

def ScatteredRecord.fields (r : ScatteredRecord α) : List (Field α) :=
  subgridHeader r.subgrid ++ .int r.count :: r.points.flatMap fun c => pointFields c.1 c.2

/-- The record counts its points, and they are the cells of the subgrid above the tolerance. -/
structure ScatteredRecord.Lists (r : ScatteredRecord α) (part : Subvector α × Subgrid) : Prop where
  subgrid_eq : r.subgrid = part.2
  count_eq : r.count = r.points.length
  nodup : r.points.Nodup
  mem_points : ∀ c w, (c, w) ∈ r.points ↔ c ∈ part.2.cells ∧ part.1.get c = w ∧ fabs w > dropTolerance

/-- A header with the number of the records that follow it, one for each subgrid. -/
def IsScatteredFile (background : Background α) (parts : List (Subvector α × Subgrid)) (file : List (Field α)) : Prop :=
  ∃ records : List (ScatteredRecord α), file = fileHeader background records.length ++ records.flatMap (·.fields) ∧
    List.Forall₂ (ScatteredRecord.Lists fabs dropTolerance) records parts

end Spec

section Exact

variable {α : Type} [LT α] [DecidableLT α] (fabs : α → α) (dropTolerance : α) (background : Background α)
  (subgrids : SubgridArray) (vec : Subgrid → Subvector α) (P : ℤ)

/-- The subvectors of all processes, one after the other. -/
def rankParts : List (Subvector α × Subgrid) := (rankOrder subgrids P).map fun s => (vec s, s)

/-- The announced sizes are those of the bytes, and the file says what it holds. -/
structure WritesScattered : Prop where
  record_size : ∀ s ∈ subgrids, fieldsSize (writePFSBinarySubvector fabs dropTolerance (vec s) s) =
    sizeofPFSBinarySubvector fabs dropTolerance (vec s) s
  rank_size : ∀ p, fieldsSize (writePFSBinary fabs dropTolerance background P p (rankSubvectors vec subgrids p)) =
    writePFSBinarySize fabs dropTolerance p (rankSubvectors vec subgrids p)
  file : IsScatteredFile fabs dropTolerance background (rankParts subgrids vec P)
    (writePFSBinaryFile fabs dropTolerance background subgrids vec P)

end Exact

end ParFlow.Pfb
