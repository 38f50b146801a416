import ParFlow.Grid.SubgridDefs
import ParFlow.Lib.Strided

/-! Addresses of a communicated subregion in a data array. `NewCommPkgInfo`
(`communication.c`) describes them by an offset and by lengths and strides for up to four
dimensions; `amps_vector_in` (`amps_vector.c`) walks along the description with a pointer,
and `amps_create_mpi_type` (`amps_pack.c`) makes a nested vector type of it. -/

namespace ParFlow

open IntLoop Strided

namespace Subregion

/-- The points of a subregion with striding factors, `x` fastest. -/
def points (s : Subregion) : List Cell :=
  (nest (upto 0 s.nz) (upto 0 s.ny) (upto 0 s.nx)).map fun c =>
    (s.ix + c.1 * s.sx, s.iy + c.2.1 * s.sy, s.iz + c.2.2 * s.sz)

end Subregion

/-! ## The description -/

/-- `len_array` and `sa` while dimensions are eliminated. -/
structure Dimensions where
  len : ℕ → ℤ
  sa : ℕ → ℤ
  dim : ℕ

/-- `for (j = i; j < 3; j++) a[j] = a[j + 1]`. -/
def shiftDown (i : ℕ) (a : ℕ → ℤ) : ℕ → ℤ := fun j => if i ≤ j ∧ j < 3 then a (j + 1) else a j

/-- One pass of the loop that eliminates dimensions. The loop goes on to `i + 1` also when the next
dimension has moved to `i`. -/
def eliminateAt (ds : Dimensions) (i : ℕ) : Dimensions :=
  if i < ds.dim ∧ ds.len i = 1 then ⟨shiftDown i ds.len, shiftDown i ds.sa, ds.dim - 1⟩ else ds

structure LoopArray where
  offset : ℤ
  lenArray : ℕ → ℤ
  strideArray : ℕ → ℤ
  dim : ℕ

def commDimensions (dataSr commSr : Subregion) (numVars : ℤ) : Dimensions :=
  let sx := commSr.sx.tdiv dataSr.sx
  let sy := commSr.sy.tdiv dataSr.sy
  let sz := commSr.sz.tdiv dataSr.sz
  { len := fun
      | 0 => commSr.nx
      | 1 => commSr.ny
      | 2 => commSr.nz
      | _ => numVars
    sa := fun
      | 0 => sx
      | 1 => sy * dataSr.nx
      | 2 => sz * dataSr.ny * dataSr.nx
      | _ => 1 * dataSr.nz * dataSr.ny * dataSr.nx
    dim := 4 }

/-- The strides count from the end of the dimensions below. -/
def incrementalStride (ds : Dimensions) (i : ℕ) : ℤ :=
  (List.range i).foldl (fun stride j => stride - ds.sa j * (ds.len j - 1)) (ds.sa i)

def newCommPkgInfo (dataSr commSr : Subregion) (index numVars : ℤ) : LoopArray :=
  let offset := (commSr.ix - dataSr.ix).tdiv dataSr.sx + (commSr.iy - dataSr.iy).tdiv dataSr.sy * dataSr.nx +
    (commSr.iz - dataSr.iz).tdiv dataSr.sz * dataSr.nx * dataSr.ny +
    index * numVars * dataSr.nx * dataSr.ny * dataSr.nz
  let ds := [0, 1, 2, 3].foldl eliminateAt (commDimensions dataSr commSr numVars)
  { offset := offset
    lenArray := ds.len
    strideArray := incrementalStride ds
    dim := if ds.dim = 0 then 1 else ds.dim }

/-! ## Two ways to enumerate it -/

/-- The addresses that are filled from the buffer, and the pointer after that. -/
def vectorIn (len stride : ℕ → ℤ) : ℕ → ℤ → List ℤ × ℤ
  | 0, data => ((upto 0 (len 0)).map fun k => data + k * stride 0, data + (len 0 - 1) * stride 0)
  | dim + 1, data => walkLoop (vectorIn len stride dim) (stride (dim + 1)) (len (dim + 1) - 1).toNat data

def ampsVectorIn (info : LoopArray) : List ℤ :=
  (vectorIn info.lenArray info.strideArray (info.dim - 1) info.offset).1

/-- `MPI_Type_vector` with blocks of one element, as displacements in bytes. -/
def mpiTypeVector (count stride elementSize : ℤ) : List ℤ := (upto 0 count).map fun k => k * stride * elementSize

/-- `MPI_Type_create_hvector` with blocks of one element. -/
def mpiTypeCreateHvector (count stride : ℤ) (oldType : List ℤ) : List ℤ :=
  (upto 0 count).flatMap fun k => oldType.map (· + k * stride)

/-- The type and `base_size` after the dimensions below `dim`. -/
def mpiVectorType (elementSize : ℤ) (len stride : ℕ → ℤ) : ℕ → List ℤ × ℤ
  | 0 => (mpiTypeVector (len 0) (stride 0) elementSize, elementSize * (len 0 + (len 0 - 1) * (stride 0 - 1)))
  | i + 1 =>
    let base := mpiVectorType elementSize len stride i
    (mpiTypeCreateHvector (len (i + 1)) (base.2 + (stride (i + 1) - 1) * elementSize) base.1,
      base.2 * len (i + 1) + (stride (i + 1) - 1) * (len (i + 1) - 1) * elementSize)

/-- The displacements of the type in bytes, from the start of the data array. -/
def ampsCreateMpiType (elementSize : ℤ) (info : LoopArray) : List ℤ :=
  (mpiVectorType elementSize info.lenArray info.strideArray (info.dim - 1)).1.map
    (info.offset * elementSize + ·)

/-! ## Values -/

/-- The values of a message, in the order of the addresses. -/
def packValues {α : Type} (data : ℤ → α) (addresses : List ℤ) : List α := addresses.map data

def unpackValues {α : Type} (data : ℤ → α) (addresses : List ℤ) (values : List α) : ℤ → α :=
  (addresses.zip values).foldl (fun data av => Function.update data av.1 av.2) data

end ParFlow
