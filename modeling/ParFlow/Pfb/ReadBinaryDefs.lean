import ParFlow.Lib.NumberText
import ParFlow.Pfb.DistRead

/-! The files of `WritePFBinary` and how the processes read them again (`write_parflow_binary.c`,
`read_parflow_binary.c`, `amps_ffopen.c`), for one file that all processes share. -/

namespace ParFlow.Pfb

open IntLoop ByteFile TextScan TextStream NumberText

/-! ## Opening -/

/-- The contents of the files by their names; `none` where there is no file. -/
abbrev Disk := List Char → Option (List UInt8)

def distFilename (filename : List Char) : List Char := filename ++ ".dist".toList

/-- `fprintf(dfile, "%ld\n", start)` -/
def distLine (start : ℤ) : List UInt8 := utf8 (intText start ++ ['\n'])

/-- Process 0 while it opens a file for writing: the bytes so far, the starts that it has sent and the `.dist` file. -/
structure Gather where
  total : ℤ
  sent : List ℤ
  dfile : List UInt8

/-- Receive the size of the next process and send it its start. -/
def Gather.round (st : Gather) (size : ℤ) : Gather :=
  let start := st.total
  { total := st.total + size
    sent := st.sent ++ [start]
    dfile := st.dfile ++ distLine start }

/-- Process 0 itself always starts at byte 0. -/
def ampsFFopenWrite (size : ℤ) (sizes : List ℤ) : Gather := sizes.foldl Gather.round ⟨size, [], utf8 "0\n".toList⟩

/-- Read the start of a process `_p` and send it. -/
def readStart (starts : List ℤ) (_p : ℤ) : Reader (List ℤ) := do
  let start ← takeInt
  pure (starts ++ [start])

/-- The starts that process 0 hands out when a file is opened for reading. It reads its own start as well but does
not use it. -/
def ampsFFopenRead (numProcs : ℤ) : Reader (List ℤ) := do
  let _start ← takeInt
  (upto 1 numProcs).foldlM readStart [0]

/-! ## Writing -/

/-- `sprintf(filename, "%s.%s.%s", file_prefix, file_suffix, file_extn)` -/
def pfbFilename (filePrefix fileSuffix fileExtn : List Char) : List Char :=
  filePrefix ++ '.' :: (fileSuffix ++ '.' :: fileExtn)

section Write

variable {α : Type} (subgrids : SubgridArray) (vec : Subgrid → Subvector α) (numProcs : ℤ)

/-- The size that process `n` announces. -/
def rankSize (n : ℤ) : ℤ := writePFBinarySize n (rankSubvectors vec subgrids n)

/-- What process 0 does while all processes open the file. -/
def openPFBinary : Gather := ampsFFopenWrite (rankSize subgrids vec 0) ((upto 1 numProcs).map (rankSize subgrids vec))

/-- The disk after writes have been made to the file, in the order of the list. -/
def writePFBinaryDisk (disk : Disk) (filename : List Char) (ws : List (ℕ × List UInt8)) : Disk :=
  let file := File.empty.writeAll ws
  Function.update (Function.update disk (distFilename filename) (some (openPFBinary subgrids vec numProcs).dfile))
    filename (some (file.bytesAt 0 file.size))

end Write

/-! ## Reading -/

section Read

variable {α : Type} (enc : Encoding α)

def ampsReadInt : Reader ℤ := do
  let bs ← takeBytes 4
  pure (enc.readInt bs)

def ampsReadDouble : Reader α := do
  let bs ← takeBytes 8
  pure (enc.readDouble bs)

def readPFBinarySubvector (subvector : Subvector α) (_subgrid : Subgrid) : Reader (Subvector α) := do
  let ix ← ampsReadInt enc
  let iy ← ampsReadInt enc
  let iz ← ampsReadInt enc
  let nx ← ampsReadInt enc
  let ny ← ampsReadInt enc
  let nz ← ampsReadInt enc
  let _rx ← ampsReadInt enc
  let _ry ← ampsReadInt enc
  let _rz ← ampsReadInt enc
  let data := subvectorEltIndex subvector.dataSpace ix iy iz
  (boxLoopI1 ix iy iz nx ny nz 0 subvector.dataSpace.nx subvector.dataSpace.ny 1 1 1).foldlM (fun v c => do
    let w ← ampsReadDouble enc
    pure { v with data := Function.update v.data (data + c.2) w }) subvector

/-- The header, whose values are not used. -/
def readPFBinaryHeader : Reader Unit := do
  let _X ← ampsReadDouble enc
  let _Y ← ampsReadDouble enc
  let _Z ← ampsReadDouble enc
  let _NX ← ampsReadInt enc
  let _NY ← ampsReadInt enc
  let _NZ ← ampsReadInt enc
  let _DX ← ampsReadDouble enc
  let _DY ← ampsReadDouble enc
  let _DZ ← ampsReadDouble enc
  let _P ← ampsReadInt enc
  pure ()

/-- What process `p` reads from its start on. -/
def readPFBinaryRank (p : ℤ) (subvectors : List (Subvector α × Subgrid)) : Reader (List (Subvector α)) := do
  if p = 0 then readPFBinaryHeader enc
  subvectors.mapM fun s => readPFBinarySubvector enc s.1 s.2

/-- The new subvectors of process `p` and the position in the file after them. `none` for a file name without the
ending, for a file that is missing and for one that is too short. -/
def readPFBinary (filename : List Char) (disk : Disk) (numProcs p : ℤ) (subvectors : List (Subvector α × Subgrid)) :
    Option (List (Subvector α) × ℕ) :=
  if filename.length < 4 ∨ filename.drop (filename.length - 4) ≠ ".pfb".toList then none
  else do
    let dist ← disk (distFilename filename)
    let (starts, _) ← ampsFFopenRead numProcs dist
    let start ← starts[p.toNat]?
    let bytes ← disk filename
    let (result, rest) ← readPFBinaryRank enc p subvectors (bytes.drop start.toNat)
    some (result, bytes.length - rest.length)

end Read

end ParFlow.Pfb
