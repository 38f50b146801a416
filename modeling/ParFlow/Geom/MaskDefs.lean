import ParFlow.Lib.TextScan
import ParFlow.Pfb.DistRead
import ParFlow.Lib.WordStream

/-! The masks of a solid: `SolidFileBuilder.write` chooses the labels of the faces and writes six files, from which
`pfmask-to-pfsol` makes the triangles. -/

namespace ParFlow.Mask

open IntLoop TextScan TextStream ByteFile Pfb

/-- The masks, in the order of `g_maskNames`. -/
inductive MaskName where
  | top
  | bottom
  | left
  | right
  | front
  | back
  deriving DecidableEq

/-- One value for each mask. -/
def MaskName.select {β : Type} (top bottom left right front back : β) : MaskName → β
  | .top => top
  | .bottom => bottom
  | .left => left
  | .right => right
  | .front => front
  | .back => back

/-! ## The builder -/

/-- The arrays are indexed by row and column; the arrays of patch ids may be missing. -/
structure SolidFileBuilder (α : Type) where
  jSize : ℕ
  iSize : ℕ
  maskArray : ℤ → ℤ → α
  patchIdsTop : Option (ℤ → ℤ → ℤ)
  patchIdsBottom : Option (ℤ → ℤ → ℤ)
  patchIdsSide : Option (ℤ → ℤ → ℤ)
  topId : ℤ
  bottomId : ℤ
  sideId : ℤ

/-- A value in an array of `np.int16`. -/
def int16 (v : ℤ) : ℤ := Int.bmod v (2 ^ 16)

/-- `patch_value if patch_value else default_id` -/
def patchLabel (patchIds : Option (ℤ → ℤ → ℤ)) (defaultId j i : ℤ) : ℤ :=
  let patchValue := match patchIds with
    | none => 0
    | some ids => ids j i
  if patchValue ≠ 0 then patchValue else defaultId

namespace SolidFileBuilder

variable {α : Type} [Zero α] [DecidableEq α] (b : SolidFileBuilder α)

/-- The mask of a side: at the edge of the array, or next to a cell that is not masked. -/
def sideMask (edge : Bool) (dj di j i : ℤ) : ℤ :=
  if b.maskArray j i ≠ 0 then
    if edge ∨ b.maskArray (j + dj) (i + di) = 0 then int16 (patchLabel b.patchIdsSide b.sideId j i) else 0
  else 0

def leftMask (j i : ℤ) : ℤ := b.sideMask (i = 0) 0 (-1) j i

def rightMask (j i : ℤ) : ℤ := b.sideMask (i + 1 = b.iSize) 0 1 j i

def backMask (j i : ℤ) : ℤ := b.sideMask (j + 1 = b.jSize) 1 0 j i

def frontMask (j i : ℤ) : ℤ := b.sideMask (j = 0) (-1) 0 j i

def bottomMask (j i : ℤ) : ℤ :=
  if b.maskArray j i ≠ 0 then int16 (patchLabel b.patchIdsBottom b.bottomId j i) else 0

def topMask (j i : ℤ) : ℤ := if b.maskArray j i ≠ 0 then int16 (patchLabel b.patchIdsTop b.topId j i) else 0

def mask : MaskName → ℤ → ℤ → ℤ :=
  MaskName.select b.topMask b.bottomMask b.leftMask b.rightMask b.frontMask b.backMask

end SolidFileBuilder

/-! ## The files -/

def intText (v : ℤ) : List Char := (if v < 0 then ['-'] else []) ++ decimal v.natAbs

/-- A number as Python prints it, which a stream reads as a double. -/
structure AscNumber where
  text : List Char
  value : ℚ
  scans : Scans takeDouble (utf8 text) value

structure AscSettings where
  xllcorner : AscNumber
  yllcorner : AscNumber
  cellsize : AscNumber

def AscNumber.ofNat (n : ℕ) : AscNumber := ⟨decimal n, n, scans_takeDouble n fun _ hb => absurd hb List.not_mem_nil⟩

/-- `write_patch_matrix_as_asc`, with the last row first. -/
def writePatchMatrixAsAsc (matrix : ℤ → ℤ → ℤ) (height width : ℕ) (settings : AscSettings) : List Char :=
  "ncols          ".toList ++ intText width ++ ['\n'] ++
  "nrows          ".toList ++ intText height ++ ['\n'] ++
  "xllcorner      ".toList ++ settings.xllcorner.text ++ ['\n'] ++
  "yllcorner      ".toList ++ settings.yllcorner.text ++ ['\n'] ++
  "cellsize       ".toList ++ settings.cellsize.text ++ ['\n'] ++
  "NODATA_value   ".toList ++ intText 0 ++ ['\n'] ++
  (upto 0 height).flatMap fun j => (upto 0 width).flatMap fun i => intText (matrix (height - j - 1) i) ++ ['\n']

/-- One value of `ReadASCMask`: the rows of the file are flipped. -/
def readASCValue (j : ℤ) (v : Databox ℚ) (i : ℤ) : Reader (Databox ℚ) := do
  let value ← takeDouble
  let flippedJ := (v.ny - 1) - j
  pure { v with coeffs := Function.update v.coeffs (v.coeff i flippedJ 0) value }

/-- `none` for a stream that fails, where variables would keep what they held before. -/
def readASCMask (defaultValue : ℚ) : Reader (Databox ℚ) := do
  let _text ← takeWord
  let nx ← takeInt
  let _text ← takeWord
  let ny ← takeInt
  let nz := 1
  let _text ← takeWord
  let sx ← takeDouble
  let _text ← takeWord
  let sy ← takeDouble
  let _text ← takeWord
  let dx ← takeDouble
  let _text ← takeWord
  let _text ← takeWord
  (upto 0 ny).foldlM (fun v j => (upto 0 nx).foldlM (readASCValue j) v) ⟨nx, ny, nz, sx, sy, 0, dx, dx, dx, fun _ => defaultValue⟩

/-! ## The triangles -/

structure Triangle where
  v : ℤ × ℤ × ℤ
  patch : ℤ

def vertexIndex (nx ny i j k : ℤ) : ℤ := (nx + 1) * (ny + 1) * k + j * (nx + 1) + i

def triangleIndex (nx ny i j k : ℤ) : ℤ := nx * ny * k + j * nx + i

/-- The conversion of a double to an `int`. -/
def toInt (x : ℚ) : ℤ := if x < 0 then ⌈x⌉ else ⌊x⌋

/-- The values of a mask, copied cell by cell into a vector of zeros. -/
def indicators (nx ny : ℤ) (databox : Databox ℚ) : ℤ → ℤ :=
  (upto 0 ny).foldl (fun ind j => (upto 0 nx).foldl (fun ind i =>
    Function.update ind (triangleIndex nx ny i j 0) (toInt (databox.coeffs (databox.coeff i j 0)))) ind) fun _ => 0

/-- The corners of the two triangles of a face, in the order of the source. -/
def faceTriangles (nx ny i j : ℤ) : MaskName → (ℤ × ℤ × ℤ) × (ℤ × ℤ × ℤ)
  | .top =>
    ((vertexIndex nx ny i j 1, vertexIndex nx ny (i + 1) j 1, vertexIndex nx ny (i + 1) (j + 1) 1),
      (vertexIndex nx ny i j 1, vertexIndex nx ny (i + 1) (j + 1) 1, vertexIndex nx ny i (j + 1) 1))
  | .bottom =>
    ((vertexIndex nx ny i j 0, vertexIndex nx ny (i + 1) (j + 1) 0, vertexIndex nx ny (i + 1) j 0),
      (vertexIndex nx ny i j 0, vertexIndex nx ny i (j + 1) 0, vertexIndex nx ny (i + 1) (j + 1) 0))
  | .left =>
    ((vertexIndex nx ny i j 0, vertexIndex nx ny i j 1, vertexIndex nx ny i (j + 1) 0),
      (vertexIndex nx ny i j 1, vertexIndex nx ny i (j + 1) 1, vertexIndex nx ny i (j + 1) 0))
  | .right =>
    ((vertexIndex nx ny (i + 1) (j + 1) 0, vertexIndex nx ny (i + 1) j 1, vertexIndex nx ny (i + 1) j 0),
      (vertexIndex nx ny (i + 1) j 1, vertexIndex nx ny (i + 1) (j + 1) 0, vertexIndex nx ny (i + 1) (j + 1) 1))
  | .front =>
    ((vertexIndex nx ny i j 0, vertexIndex nx ny (i + 1) j 0, vertexIndex nx ny (i + 1) j 1),
      (vertexIndex nx ny i j 0, vertexIndex nx ny (i + 1) j 1, vertexIndex nx ny i j 1))
  | .back =>
    ((vertexIndex nx ny (i + 1) (j + 1) 1, vertexIndex nx ny (i + 1) (j + 1) 0, vertexIndex nx ny i (j + 1) 0),
      (vertexIndex nx ny i (j + 1) 1, vertexIndex nx ny (i + 1) (j + 1) 1, vertexIndex nx ny i (j + 1) 0))

/-- The two triangles of a face with their patch. -/
def patchTriangles (nx ny i j : ℤ) (face : MaskName) (patch : ℤ) : List Triangle :=
  let (first, second) := faceTriangles nx ny i j face
  [⟨first, patch⟩, ⟨second, patch⟩]

section Build

variable (nx ny : ℤ) (ind : MaskName → ℤ → ℤ)

/-- The triangles of one cell; the top mask tells which cells are in the domain. -/
def cellTriangles (i j : ℤ) : List Triangle :=
  let index := fun i j => triangleIndex nx ny i j 0
  let indicator := ind .top (index i j)
  if indicator ≠ 0 then
    patchTriangles nx ny i j .top indicator ++
    patchTriangles nx ny i j .bottom (ind .bottom (index i j)) ++
    (if i = 0 ∨ ind .top (index (i - 1) j) = 0 then patchTriangles nx ny i j .left (ind .left (index i j)) else []) ++
    (if i = nx - 1 ∨ ind .top (index (i + 1) j) = 0 then patchTriangles nx ny i j .right (ind .right (index i j)) else []) ++
    (if j = 0 ∨ ind .top (index i (j - 1)) = 0 then patchTriangles nx ny i j .front (ind .front (index i j)) else []) ++
    (if j = ny - 1 ∨ ind .top (index i (j + 1)) = 0 then patchTriangles nx ny i j .back (ind .back (index i j)) else [])
  else []

def buildTriangles : List Triangle :=
  (upto 0 ny).flatMap fun j => (upto 0 nx).flatMap fun i => cellTriangles nx ny ind i j

end Build

/-- The triangles of six mask files; the sizes are those of the top mask. -/
def maskTriangles (files : MaskName → List UInt8) : Option (List Triangle) := do
  let read := fun name => ((readASCMask 0).run (files name)).map Prod.fst
  let top ← read .top
  let bottom ← read .bottom
  let left ← read .left
  let right ← read .right
  let front ← read .front
  let back ← read .back
  let databox := MaskName.select top bottom left right front back
  some (buildTriangles top.nx top.ny fun name => indicators top.nx top.ny (databox name))

end ParFlow.Mask

/-! The surface that `pfmask-to-pfsol` builds before it is simplified: the vertices that are used, their new numbers, and the
triangles with these. -/

namespace ParFlow.Mask

open IntLoop

structure Vertex (K : Type) where
  p : K × K × K
  used : Bool
  newIndex : ℤ

/-- The vertices that the block of a face marks, in the order of the source. -/
def faceMarks (nx ny i j : ℤ) : MaskName → List ℤ
  | .top =>
    [vertexIndex nx ny i j 1, vertexIndex nx ny (i + 1) j 1, vertexIndex nx ny i (j + 1) 1, vertexIndex nx ny (i + 1) (j + 1) 1]
  | .bottom =>
    [vertexIndex nx ny i j 0, vertexIndex nx ny (i + 1) j 0, vertexIndex nx ny i (j + 1) 0, vertexIndex nx ny (i + 1) (j + 1) 0]
  | .left =>
    [vertexIndex nx ny i j 0, vertexIndex nx ny i j 1, vertexIndex nx ny i (j + 1) 0, vertexIndex nx ny i (j + 1) 1]
  | .right =>
    [vertexIndex nx ny (i + 1) j 0, vertexIndex nx ny (i + 1) j 1, vertexIndex nx ny (i + 1) (j + 1) 0,
      vertexIndex nx ny (i + 1) (j + 1) 1]
  | .front =>
    [vertexIndex nx ny i j 0, vertexIndex nx ny i j 1, vertexIndex nx ny (i + 1) j 1, vertexIndex nx ny (i + 1) j 1]
  | .back =>
    [vertexIndex nx ny i (j + 1) 0, vertexIndex nx ny i (j + 1) 1, vertexIndex nx ny (i + 1) (j + 1) 0,
      vertexIndex nx ny (i + 1) (j + 1) 1]

section Build

variable {K : Type} [Field K] (nx ny : ℤ) (ind : MaskName → ℤ → ℤ)

/-- The marks that the blocks of one cell set. -/
def cellMarks (i j : ℤ) : List ℤ :=
  let index := fun i j => triangleIndex nx ny i j 0
  if ind .top (index i j) ≠ 0 then
    faceMarks nx ny i j .top ++
    faceMarks nx ny i j .bottom ++
    (if i = 0 ∨ ind .top (index (i - 1) j) = 0 then faceMarks nx ny i j .left else []) ++
    (if i = nx - 1 ∨ ind .top (index (i + 1) j) = 0 then faceMarks nx ny i j .right else []) ++
    (if j = 0 ∨ ind .top (index i (j - 1)) = 0 then faceMarks nx ny i j .front else []) ++
    (if j = ny - 1 ∨ ind .top (index i (j + 1)) = 0 then faceMarks nx ny i j .back else [])
  else []

/-- All possible vertices. The new indices are not set. -/
def buildVertices (origin spacing : K × K × K) (vertices : ℤ → Vertex K) : ℤ → Vertex K :=
  (nest (upto 0 2) (upto 0 (ny + 1)) (upto 0 (nx + 1))).foldl (fun vertices c =>
    let n := vertexIndex nx ny c.1 c.2.1 c.2.2
    Function.update vertices n { vertices n with
      p := (origin.1 + c.1 * spacing.1, origin.2.1 + c.2.1 * spacing.2.1, origin.2.2 + c.2.2 * spacing.2.2)
      used := false }) vertices

def markUsed (vertices : ℤ → Vertex K) (n : ℤ) : ℤ → Vertex K := Function.update vertices n { vertices n with used := true }

/-- The marks of all cells; the same loop appends the triangles. -/
def markVertices (vertices : ℤ → Vertex K) : ℤ → Vertex K :=
  ((upto 0 ny).flatMap fun j => (upto 0 nx).flatMap fun i => cellMarks nx ny ind i j).foldl markUsed vertices

/-- The vertices, the next new index, and the new vertices. -/
structure Compaction (K : Type) where
  vertices : ℤ → Vertex K
  newIndex : ℤ
  newVertices : List (Vertex K)

def compactVertex (s : Compaction K) (n : ℤ) : Compaction K :=
  if (s.vertices n).used then
    let vertex := { s.vertices n with newIndex := s.newIndex }
    ⟨Function.update s.vertices n vertex, s.newIndex + 1, s.newVertices ++ [vertex]⟩
  else s

def compactVertices (vertices : ℤ → Vertex K) : Compaction K :=
  (upto 0 ((nx + 1) * (ny + 1) * 2)).foldl compactVertex ⟨vertices, 0, []⟩

def reindex (vertices : ℤ → Vertex K) (t : Triangle) : Triangle :=
  { t with v := ((vertices t.v.1).newIndex, (vertices t.v.2.1).newIndex, (vertices t.v.2.2).newIndex) }

/-- What is handed over to the simplification, with the vertices from which it is made. -/
structure MaskSurface (K : Type) where
  vertices : ℤ → Vertex K
  newVertices : List (Vertex K)
  triangles : List Triangle

def buildSurface (origin spacing : K × K × K) (vertices : ℤ → Vertex K) : MaskSurface K :=
  let vertices := markVertices nx ny ind (buildVertices nx ny origin spacing vertices)
  let s := compactVertices nx ny vertices
  ⟨s.vertices, s.newVertices, (buildTriangles nx ny ind).map (reindex s.vertices)⟩

end Build

end ParFlow.Mask

/-! ASC files in Python: `load_patch_matrix_from_asc_file` looks for the end of the header line by line, and leaves the
lines behind it to `np.loadtxt`. -/

namespace ParFlow.Mask

open IntLoop TextScan TextTable Pfb

/-- An array with two axes. -/
structure PatchMatrix where
  rows : ℕ
  cols : ℕ
  entry : ℤ → ℤ → ℤ

def IsInt16 (v : ℤ) : Prop := -2 ^ 15 ≤ v ∧ v < 2 ^ 15

/-- `np.loadtxt` with `dtype=np.int16`: the values of the lines behind each other. Lines without values are skipped, and
all others have the same number of them. -/
structure LoadTxt where
  loadtxt : List (List Char) → Option (List ℤ)
  loads : ∀ (lines : List (List Char)) (rows : List (List ℤ)) (n : ℕ),
    lines.map PyText.split = rows.map (List.map intText) → (∀ row ∈ rows, row = [] ∨ row.length = n) →
      (∀ row ∈ rows, ∀ v ∈ row, IsInt16 v) → loadtxt lines = some rows.flatten
  loaded : ∀ (lines : List (List Char)) (rows : List (List ℤ)) (data : List ℤ),
    lines.map PyText.split = rows.map (List.map intText) → loadtxt lines = some data →
      (∃ n, ∀ row ∈ rows, row = [] ∨ row.length = n) ∧ data.length = rows.flatten.length ∧ ∀ v ∈ data, IsInt16 v

/-- The sizes, and the lines that are not skipped. -/
structure AscHeader where
  ncols : ℤ
  nrows : ℤ
  lines : List (List Char)

/-- The loop over the header: `none` for a line that is not unpacked, as at the end of the file. -/
def scanHeader (ncols nrows : ℤ) : List (List Char) → Option AscHeader
  | [] => none
  | line :: lines =>
    match PyText.readInt line with
    | some _ => some ⟨ncols, nrows, line :: lines⟩
    | none =>
      match PyText.split line with
      | [key, value] =>
        (if key = "ncols".toList then PyText.readInt value else some ncols).bind fun ncols =>
          (if key = "nrows".toList then PyText.readInt value else some nrows).bind fun nrows =>
            scanHeader ncols nrows lines
      | _ => none

/-- `matrix.shape = (nrows, ncols)`, where one of the sizes may be left open. -/
def shapeSizes (size nrows ncols : ℤ) : Option (ℕ × ℕ) :=
  if 0 ≤ nrows ∧ 0 ≤ ncols then if nrows * ncols = size then some (nrows.toNat, ncols.toNat) else none
  else if nrows = -1 ∧ 0 < ncols ∧ size % ncols = 0 then some ((size / ncols).toNat, ncols.toNat)
  else if ncols = -1 ∧ 0 < nrows ∧ size % nrows = 0 then some (nrows.toNat, (size / nrows).toNat)
  else none

/-- `load_patch_matrix_from_asc_file` -/
def loadPatchMatrixFromAscFile (np : LoadTxt) (text : List Char) : Option PatchMatrix := do
  let header ← scanHeader (-1) (-1) (PyText.fileLines text)
  let matrix ← np.loadtxt header.lines
  let (rows, cols) ← shapeSizes matrix.length header.nrows header.ncols
  some ⟨rows, cols, fun j i => matrix.getD ((rows - 1 - j) * cols + i).toNat 0⟩

/-! ## Files with a matrix -/

/-- The values of a file, the last row first. -/
def fileValues (matrix : ℤ → ℤ → ℤ) (height width : ℕ) : List ℤ :=
  (upto 0 height).flatMap fun j => (upto 0 width).map fun i => matrix (height - j - 1) i

/-- ASCII without white space but for blanks and tabs. -/
def IsPlainLine (line : List Char) : Prop := ∀ c ∈ line, c.toNat ≤ 127 ∧ (PyText.isSpace c → isBlank c)

/-- Six header lines, and the values of the matrix in any layout behind them. -/
structure IsAscFile (matrix : ℤ → ℤ → ℤ) (height width : ℕ) (settings : AscSettings) (noData : List Char)
    (header body : List (List Char)) : Prop where
  plain : ∀ line ∈ header ++ body, IsPlainLine line
  header : header.map PyText.split = [["ncols".toList, intText width], ["nrows".toList, intText height],
    ["xllcorner".toList, settings.xllcorner.text], ["yllcorner".toList, settings.yllcorner.text],
    ["cellsize".toList, settings.cellsize.text], ["NODATA_value".toList, noData]]
  body : body.flatMap PyText.split = (fileValues matrix height width).map intText

/-- The lines of a file; the last one is empty when the text ends with a newline. -/
def joinLines (lines : List (List Char)) : List Char := ['\n'].intercalate lines

/-- Both readers return a matrix, and each entry of the one is the value of the other. -/
def ReadersAgree (np : LoadTxt) (defaultValue : ℚ) (text : List Char) : Prop :=
  ∃ m v rest, loadPatchMatrixFromAscFile np text = some m ∧ (readASCMask defaultValue).run (utf8 text) = some (v, rest) ∧
    v.nx = m.cols ∧ v.ny = m.rows ∧
      ∀ j i : ℤ, (0 ≤ j ∧ j < m.rows) → (0 ≤ i ∧ i < m.cols) → v.coeffs (v.coeff i j 0) = m.entry j i

def LoadsMatrix (np : LoadTxt) (text : List Char) (matrix : ℤ → ℤ → ℤ) (height width : ℕ) : Prop :=
  ∃ m, loadPatchMatrixFromAscFile np text = some m ∧ m.rows = height ∧ m.cols = width ∧
    ∀ j i : ℤ, (0 ≤ j ∧ j < height) → (0 ≤ i ∧ i < width) → m.entry j i = matrix j i

/-- One value behind the header, and no more than one on any line. -/
structure OneValueLines (body : List (List Char)) : Prop where
  first : body.head?.any fun line => (PyText.split line).length = 1
  all : ∀ line ∈ body, (PyText.split line).length ≤ 1

def HasInt16 (matrix : ℤ → ℤ → ℤ) (height width : ℕ) : Prop :=
  ∀ j i : ℤ, (0 ≤ j ∧ j < height) → (0 ≤ i ∧ i < width) → IsInt16 (matrix j i)

/-- Numbers as Python prints them are words. -/
def AscSettings.IsPlain (settings : AscSettings) : Prop :=
  ∀ x ∈ [settings.xllcorner, settings.yllcorner, settings.cellsize],
    x.text ≠ [] ∧ ∀ c ∈ x.text, c.toNat ≤ 127 ∧ PyText.isSpace c = false

end ParFlow.Mask
