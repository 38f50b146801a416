import ParFlow.Lib.ByteStream
import ParFlow.Lib.NdArray
import ParFlow.Pfb.SubgridInfoDefs

/-! `write_pfb` of `io.py`. A double is an opaque word of eight bytes, and a file is its bytes. -/

namespace ParFlow.Pfb

open ByteFile

/-- What the functions raise. -/
inductive PfbError where
  | value | index | struct
  deriving DecidableEq, Repr

/-- `struct.pack('>i', v)` and `struct.pack('>d', w)`. -/
def Field.pack : Field Word → Except PfbError (List UInt8)
  | .int v => match packInt v with
    | some bs => .ok bs
    | none => .error .struct
  | .double w => .ok (List.ofFn w.byteswap)

/-- The bytes of fields that are written one after the other. -/
def packFields : List (Field Word) → Except PfbError (List UInt8)
  | [] => .ok []
  | f :: fs => do
    let bs ← f.pack
    let rest ← packFields fs
    pure (bs ++ rest)

/-- The number of an element in Fortran order. -/
def fortranIndex (shape c : Cell) : ℤ := c.1 + shape.1 * (c.2.1 + shape.2.1 * c.2.2)

def fortranCell (shape : Cell) (t : ℤ) : Cell := (t % shape.1, t / shape.1 % shape.2.1, t / shape.1 / shape.2.1)

/-- `np.memmap` with `order='F'`. -/
def memmap (file : File) (off : ℤ) (shape : Cell) : NdArray Word :=
  ⟨shape, fun c => file.wordAt (off + 8 * fortranIndex shape c).toNat⟩

/-- `mm[:] = block.byteswap()`, and the position after the subgrid. -/
def storeBlock (file : File) (off : ℤ) (shape : Cell) (block : NdArray Word) : Except PfbError (File × ℤ) :=
  match (memmap file off shape).assign (0, none) (0, none) (0, none) (block.map Word.byteswap) with
  | none => .error .value
  | some mm =>
    .ok (file.writeWords off.toNat (volume shape).toNat fun t => mm.get (fortranCell shape t), off + 8 * volume shape)

/-- The part of the array that goes to a subgrid, with `x` first. -/
def sourceBlock (zFirst : Bool) (array : NdArray Word) (start shape : Cell) : NdArray Word :=
  if zFirst then (array.slice (start.2.2, some (start.2.2 + shape.2.2)) (start.2.1, some (start.2.1 + shape.2.1))
    (start.1, some (start.1 + shape.1))).transpose
  else array.slice (start.1, some (start.1 + shape.1)) (start.2.1, some (start.2.1 + shape.2.1))
    (start.2.2, some (start.2.2 + shape.2.2))

/-- The integers before the data of a subgrid. -/
def recordFields (start shape : Cell) : List (Field Word) :=
  [start.1, start.2.1, start.2.2, shape.1, shape.2.1, shape.2.2, 1, 1, 1].map Field.int

/-- One round of the loop of `write_pfb`, with the offset, the lower index and the shape of a subgrid. -/
def writeSubgrid (zFirst : Bool) (array : NdArray Word) (st : File × ℤ) (sg : ℤ × Cell × Cell) :
    Except PfbError (File × ℤ) := do
  let head ← packFields (recordFields sg.2.1 sg.2.2)
  storeBlock (st.1.write st.2.toNat head) sg.1 sg.2.2 (sourceBlock zFirst array sg.2.1 sg.2.2)

/-- An array as `write_pfb` takes it. -/
inductive PfbArray where
  | dim3 (a : NdArray Word)
  | dim2 (ny nx : ℤ) (get : ℤ × ℤ → Word)
  | other

/-- The sizes `(nx, ny, nz)`, and the array with three axes. -/
def arrayShape (zFirst : Bool) : PfbArray → Except PfbError (Cell × NdArray Word)
  | .dim3 a => .ok (if zFirst then (a.dims.2.2, a.dims.2.1, a.dims.1) else a.dims, a)
  | .dim2 ny nx get =>
    .ok ((nx, ny, 1), if zFirst then ⟨(1, ny, nx), fun c => get (c.2.1, c.2.2)⟩ else ⟨(ny, nx, 1), fun c => get (c.1, c.2.1)⟩)
  | .other => .error .value

/-- The arguments `x`, `y`, `z`, `dx`, `dy`, `dz`. -/
structure Spacing where
  x : Word
  y : Word
  z : Word
  dx : Word
  dy : Word
  dz : Word

def headerFields (sp : Spacing) (nx ny nz nSubgrids : ℤ) : List (Field Word) :=
  [.double sp.x, .double sp.y, .double sp.z, .int nx, .int ny, .int nz, .double sp.dx, .double sp.dy, .double sp.dz,
    .int nSubgrids]

def writePfb (sp : Spacing) (array : PfbArray) (p q r : ℤ) (zFirst : Bool) : Except PfbError File := do
  let ((nx, ny, nz), a) ← arrayShape zFirst array
  let info := precalculateSubgridInfo nx ny nz p q r
  let head ← packFields (headerFields sp nx ny nz (p * q * r))
  let st ← (info.subgridOffsets.zip (info.subgridBeginIdxs.zip info.subgridShapes)).foldlM (writeSubgrid zFirst a)
    (File.empty.write 0 head, 64)
  pure st.1

end ParFlow.Pfb

/-! `ParflowBinaryReader`, `read_pfb` and `read_pfb_sequence` of `io.py`. The contents of a new
array (`np.empty`) are an argument. Quotients of `int`s are exact. -/

namespace ParFlow.Pfb

open ByteFile IntLoop

structure Header where
  x : Word
  y : Word
  z : Word
  nx : ℤ
  ny : ℤ
  nz : ℤ
  dx : Word
  dy : Word
  dz : Word
  nSubgrids : ℤ

/-- Values along the three axes. -/
structure PerAxis (β : Type) where
  x : β
  y : β
  z : β

structure ParflowBinaryReader where
  file : File
  header : Header
  p : ℤ
  q : ℤ
  r : ℤ
  info : SubgridInfo
  chunks : PerAxis (List ℤ)
  coords : PerAxis (List (List ℤ))

/-! ## Headers -/

def readInt (file : File) (off : ℕ) : Except PfbError ℤ :=
  match file.read off 4 with
  | some bs => .ok (unpackInt bs)
  | none => .error .struct

def readDouble (file : File) (off : ℕ) : Except PfbError Word :=
  if off + 8 ≤ file.size then .ok (file.wordAt off).byteswap else .error .struct

def readHeader (file : File) : Except PfbError Header := do
  let x ← readDouble file 0
  let y ← readDouble file 8
  let z ← readDouble file 16
  let nx ← readInt file 24
  let ny ← readInt file 28
  let nz ← readInt file 32
  let dx ← readDouble file 36
  let dy ← readDouble file 44
  let dz ← readDouble file 52
  let nSubgrids ← readInt file 60
  pure ⟨x, y, z, nx, ny, nz, dx, dy, dz, nSubgrids⟩

/-- The lower index and the shape; the resolutions are read and not used. -/
def readSubgridHeader (file : File) (skipBytes : ℤ) : Except PfbError (Cell × Cell) :=
  let value := fun i : ℕ => unpackInt (file.bytesAt (skipBytes.toNat + 4 * i) 4)
  if skipBytes.toNat + 36 ≤ file.size then
    .ok ((value 0, value 1, value 2), (value 3, value 4, value 5))
  else .error .value

/-! ## Layout -/

/-- `int(n / first + eps)` with `eps = 1 - 1e-6`. -/
def inferCount (n first : ℤ) : Except PfbError ℤ :=
  if first = 0 then .error .value else .ok ⌊(n : ℚ) / (first : ℚ) + (1 - 1 / 10 ^ 6)⌋

/-- `l[0:stop:step]` for positive bounds. -/
def stepSlice (l : List ℤ) (stop step : ℤ) : List ℤ :=
  (List.range (min stop.toNat l.length)).filterMap fun i => if i % step.toNat = 0 then l[i]? else none

def computeChunks (p q r : ℤ) (shapes : List Cell) : Except PfbError (PerAxis (List ℤ)) :=
  if shapes = [] then .error .index
  else .ok
    { x := stepSlice (shapes.map fun s => s.1) p 1
      y := stepSlice (shapes.map fun s => s.2.1) (p * q) p
      z := stepSlice (shapes.map fun s => s.2.2) (p * q * r) (p * q) }

def axisCoords : ℤ → List ℤ → List (List ℤ)
  | _, [] => []
  | chunkStart, chunk :: chunks => upto chunkStart (chunkStart + chunk) :: axisCoords (chunkStart + chunk) chunks

def computeCoords (chunks : PerAxis (List ℤ)) : PerAxis (List (List ℤ)) :=
  ⟨axisCoords 0 chunks.x, axisCoords 0 chunks.y, axisCoords 0 chunks.z⟩

def withInfo (file : File) (header : Header) (p q r : ℤ) (info : SubgridInfo) :
    Except PfbError ParflowBinaryReader := do
  let chunks ← computeChunks p q r info.subgridShapes
  pure ⟨file, header, p, q, r, info, chunks, computeCoords chunks⟩

def computeSubgridInfo (file : File) (header : Header) (p q r : ℤ) : Except PfbError ParflowBinaryReader :=
  withInfo file header p q r (precalculateSubgridInfo header.nx header.ny header.nz p q r)

/-- One round of `read_subgrid_info`, with the offset of the next subgrid header. -/
def readInfoStep (file : File) (p q r : ℤ) (st : ℤ × SubgridInfo) (sgNum : ℤ) : Except PfbError (ℤ × SubgridInfo) := do
  let (start, shape) ← readSubgridHeader file st.1
  let off := st.1 + 36
  pure (off + volume shape * 8,
    { subgridOffsets := st.2.subgridOffsets ++ [off]
      subgridLocs := st.2.subgridLocs ++ [getSubgridLoc sgNum p q r]
      subgridBeginIdxs := st.2.subgridBeginIdxs ++ [start]
      subgridShapes := st.2.subgridShapes ++ [shape] })

def readSubgridInfo (reader : ParflowBinaryReader) : Except PfbError ParflowBinaryReader := do
  let st ← (upto 0 reader.header.nSubgrids).foldlM (readInfoStep reader.file reader.p reader.q reader.r)
    (64, ⟨[], [], [], []⟩)
  withInfo reader.file reader.header reader.p reader.q reader.r st.2

def newReader (file : File) (readSgInfo : Bool) : Except PfbError ParflowBinaryReader := do
  let header ← readHeader file
  let (_, firstShape) ← readSubgridHeader file 64
  let p ← inferCount header.nx firstShape.1
  let q ← inferCount header.ny firstShape.2.1
  let r ← inferCount header.nz firstShape.2.2
  let reader ← computeSubgridInfo file header p q r
  if readSgInfo then readSubgridInfo reader else pure reader

/-! ## Data -/

def nth {β : Type} (l : List β) (i : ℕ) : Except PfbError β :=
  match l[i]? with
  | some b => .ok b
  | none => .error .index

def ilocSubgrid (reader : ParflowBinaryReader) (idx : ℕ) : Except PfbError (NdArray Word) := do
  let offset ← nth reader.info.subgridOffsets idx
  let shape ← nth reader.info.subgridShapes idx
  if offset.toNat + 8 * (volume shape).toNat ≤ reader.file.size then
    pure ((memmap reader.file offset shape).map Word.byteswap)
  else .error .value

/-- `a[start0:start0+n0, ...] = b`. -/
def place (a : NdArray Word) (start dims : Cell) (b : NdArray Word) : Except PfbError (NdArray Word) :=
  match a.assign (start.1, some (start.1 + dims.1)) (start.2.1, some (start.2.1 + dims.2.1))
      (start.2.2, some (start.2.2 + dims.2.2)) b with
  | some a => .ok a
  | none => .error .value

def flipCell (c : Cell) : Cell := (c.2.2, c.2.1, c.1)

def placeSubgrid (reader : ParflowBinaryReader) (zFirst : Bool) (allData : NdArray Word) (i : ℕ) :
    Except PfbError (NdArray Word) := do
  let shape ← nth reader.info.subgridShapes i
  let start ← nth reader.info.subgridBeginIdxs i
  let block ← ilocSubgrid reader i
  if zFirst then place allData (flipCell start) (flipCell shape) block.transpose else place allData start shape block

/-- `read_all_subgrids` with `mode='full'`. -/
def readAllSubgrids (reader : ParflowBinaryReader) (zFirst : Bool) (empty : Cell → Word) :
    Except PfbError (NdArray Word) :=
  let dims := (reader.header.nx, reader.header.ny, reader.header.nz)
  (List.range reader.header.nSubgrids.toNat).foldlM (placeSubgrid reader zFirst)
    ⟨if zFirst then flipCell dims else dims, empty⟩

/-! ## Parts of the data -/

/-- The number of the first chunk with the index, or of the last chunk. -/
def findChunk (i : ℤ) (coords : List (List ℤ)) : ℕ :=
  (coords.findIdx? fun c => i ∈ c).getD (coords.length - 1)

/-- `np.arange(s, e + 1)`. -/
def getNeededSubgrids (start stop : ℤ) (coords : List (List ℤ)) : List ℕ :=
  (List.range (findChunk stop coords + 1)).drop (findChunk start coords)

def npUnique (l : List ℤ) : List ℤ := l.toFinset.sort (· ≤ ·)

def npMin (l : List ℤ) : Except PfbError ℤ :=
  match l.min? with
  | some m => .ok m
  | none => .error .value

/-- The coordinates of the chunks, sorted. -/
def sgCoords (needed : List ℕ) (coords : List (List ℤ)) : List ℤ :=
  npUnique (needed.flatMap fun s => coords.getD s [])

def getFinalClip (start stop : ℤ) (coords : List ℤ) : ℤ × Option ℤ :=
  (match coords.findIdx? (· = start) with
    | some i => i
    | none => 0,
   (coords.findIdx? (· = stop)).map fun i : ℕ => (i : ℤ))

/-- One round of the loop that fills the bounding box with lower corner `corner`. -/
def placeBounding (reader : ParflowBinaryReader) (corner : Cell) (bounding : NdArray Word) (sg : ℕ × ℕ × ℕ) :
    Except PfbError (NdArray Word) := do
  let idx := ((sg.1 : ℤ) + reader.p * sg.2.1 + reader.p * reader.q * sg.2.2).toNat
  let start ← nth reader.info.subgridBeginIdxs idx
  let shape ← nth reader.info.subgridShapes idx
  let block ← ilocSubgrid reader idx
  place bounding (start.1 - corner.1, start.2.1 - corner.2.1, start.2.2 - corner.2.2) shape block

/-- Sizes that are zero stand for sizes that are not given. -/
def readSubarray (reader : ParflowBinaryReader) (start size : Cell) (zFirst : Bool) (empty : Cell → Word) :
    Except PfbError (NdArray Word) := do
  let nx := if size.1 = 0 then reader.header.nx else size.1
  let ny := if size.2.1 = 0 then reader.header.ny else size.2.1
  let nz := if size.2.2 = 0 then reader.header.nz else size.2.2
  let pSubgrids := getNeededSubgrids start.1 (start.1 + nx) reader.coords.x
  let qSubgrids := getNeededSubgrids start.2.1 (start.2.1 + ny) reader.coords.y
  let rSubgrids := getNeededSubgrids start.2.2 (start.2.2 + nz) reader.coords.z
  let xCoords := sgCoords pSubgrids reader.coords.x
  let yCoords := sgCoords qSubgrids reader.coords.y
  let zCoords := sgCoords rSubgrids reader.coords.z
  let xMin ← npMin xCoords
  let yMin ← npMin yCoords
  let zMin ← npMin zCoords
  let subgrids := pSubgrids.flatMap fun xsg => qSubgrids.flatMap fun ysg => rSubgrids.map fun zsg => (xsg, ysg, zsg)
  let bounding ← subgrids.foldlM (placeBounding reader (xMin, yMin, zMin))
    ⟨(xCoords.length, yCoords.length, zCoords.length), empty⟩
  let part := bounding.slice (getFinalClip start.1 (start.1 + nx) xCoords)
    (getFinalClip start.2.1 (start.2.1 + ny) yCoords) (getFinalClip start.2.2 (start.2.2 + nz) zCoords)
  pure (if zFirst then part.transpose else part)

/-! ## Reading files -/

/-- The `start` and `stop` of one axis. -/
structure AxisKeys where
  start : Option ℤ
  stop : Option ℤ

/-- A number that is missing or zero is replaced. -/
def orElse (v : Option ℤ) (dflt : ℤ) : ℤ :=
  match v with
  | some i => if i = 0 then dflt else i
  | none => dflt

/-- The start and the size that keys ask for. -/
def keyRange (keys : PerAxis AxisKeys) (header : Header) : Cell × Cell :=
  let start := (orElse keys.x.start 0, orElse keys.y.start 0, orElse keys.z.start 0)
  let stop := (orElse keys.x.stop header.nx, orElse keys.y.stop header.ny, orElse keys.z.stop header.nz)
  (start, (max (stop.1 - start.1) 1, max (stop.2.1 - start.2.1) 1, max (stop.2.2 - start.2.2) 1))

/-- The data of one file; no keys stand for the whole array. -/
def readData (reader : ParflowBinaryReader) (keys : Option (PerAxis AxisKeys)) (zFirst : Bool) (empty : Cell → Word) :
    Except PfbError (NdArray Word) :=
  match keys with
  | none => readAllSubgrids reader zFirst empty
  | some keys =>
    let range := keyRange keys reader.header
    readSubarray reader range.1 range.2 zFirst empty

def readPfb (file : File) (keys : Option (PerAxis AxisKeys)) (zFirst readSgInfo : Bool) (empty : Cell → Word) :
    Except PfbError (NdArray Word) := do
  let reader ← newReader file readSgInfo
  readData reader keys zFirst empty

/-- The sizes of each array of a sequence. -/
def sequenceDims (header : Header) (keys : Option (PerAxis AxisKeys)) (zFirst : Bool) : Cell :=
  let dims := match keys with
    | none => (header.nx, header.ny, header.nz)
    | some keys => (keyRange keys header).2
  if zFirst then flipCell dims else dims

/-- The files in the order of their names, for `z_is` other than `'time'`. The layout of the first one
is used for all. -/
def readPfbSequence (fileSeq : List File) (keys : Option (PerAxis AxisKeys)) (zFirst readSgInfo : Bool)
    (empty : Cell → Word) : Except PfbError (List (NdArray Word)) := do
  let first ← nth fileSeq 0
  let base ← newReader first readSgInfo
  let dims := sequenceDims base.header keys zFirst
  fileSeq.mapM fun file => do
    let data ← readData { base with file := file } keys zFirst empty
    place ⟨dims, empty⟩ (0, 0, 0) dims data

end ParFlow.Pfb
