import ParFlow.Grid.BoxLoop
import ParFlow.Grid.SubgridDefs
import ParFlow.Comm.ComputeDefs

/-! `Matvec` (`matvec.c`) on one process, in exact arithmetic. A vector or matrix is the array of its
subvectors or submatrices. The exchange writes to `x` until `FinalizeVectorUpdate` returns, so that `x`
is given twice: as the independent and as the dependent region see it. -/

namespace ParFlow

structure Submatrix where
  dataSpace : Subregion
  dataIndex : ℕ → ℤ
  data : ℤ → ℚ

def submatrixEltIndex (dataSpace : Subregion) (x y z : ℤ) : ℤ :=
  (x - dataSpace.ix).tdiv dataSpace.sx +
    ((y - dataSpace.iy).tdiv dataSpace.sy + (z - dataSpace.iz).tdiv dataSpace.sz * dataSpace.ny) * dataSpace.nx

/-- The address `SubmatrixElt(A_sub, s, x, y, z)` in the data array. -/
def submatrixElt (A : Submatrix) (s : ℕ) (x y z : ℤ) : ℤ := A.dataIndex s + submatrixEltIndex A.dataSpace x y z

/-- A `BoxLoopI1` with the body `yp[vi] = f(yp[vi])`. -/
def mapBox (f : ℚ → ℚ) (box : Subregion) (y : Subvector ℚ) : Subvector ℚ :=
  let yp := subvectorEltIndex y.dataSpace box.ix box.iy box.iz
  { y with
    data := (boxLoopI1 box.ix box.iy box.iz box.nx box.ny box.nz 0 y.dataSpace.nx y.dataSpace.ny 1 1 1).foldl
      (fun data i => Function.update data (yp + i.2) (f (data (yp + i.2)))) y.data }

/-- The loop over the subgrids that are not empty. -/
def forSubgrids (body : Subgrid → Subvector ℚ → Subvector ℚ) (subgrids : SubgridArray) (y : ℕ → Subvector ℚ) :
    ℕ → Subvector ℚ :=
  subgrids.zipIdx.foldl (fun y sg =>
    if sg.1.nx ≠ 0 ∧ sg.1.ny ≠ 0 ∧ sg.1.nz ≠ 0 then Function.update y sg.2 (body sg.1 (y sg.2)) else y) y

/-- `y = temp * y`, where nothing is done for one. -/
def initY (temp : ℚ) (subgrid : Subgrid) (y : Subvector ℚ) : Subvector ℚ :=
  if temp ≠ 1 then
    if temp = 0 then mapBox (fun _ => 0) subgrid y else mapBox (fun v => v * temp) subgrid y
  else y

/-- The loop for the stencil element `s[si]`. -/
def addTerm (A : Submatrix) (x : Subvector ℚ) (box : Subregion) (y : Subvector ℚ) (e : Cell × ℕ) : Subvector ℚ :=
  let s := e.1
  let yp := subvectorEltIndex y.dataSpace box.ix box.iy box.iz
  let xp := subvectorEltIndex x.dataSpace (box.ix + s.1) (box.iy + s.2.1) (box.iz + s.2.2)
  let ap := submatrixElt A e.2 box.ix box.iy box.iz
  { y with
    data := (boxLoopI2 box.ix box.iy box.iz box.nx box.ny box.nz 0 y.dataSpace.nx y.dataSpace.ny box.sx box.sy box.sz
      0 A.dataSpace.nx A.dataSpace.ny 1 1 1).foldl (fun data i =>
        Function.update data (yp + i.2.1) (data (yp + i.2.1) + A.data (ap + i.2.2) * x.data (xp + i.2.1))) y.data }

def matvecBox (alpha : ℚ) (stencil : StencilShape) (A : Submatrix) (x y : Subvector ℚ) (box : Subregion) : Subvector ℚ :=
  let y := stencil.zipIdx.foldl (addTerm A x box) y
  if alpha ≠ 1 then mapBox (fun v => v * alpha) box y else y

def matvecRegion (alpha : ℚ) (stencil : StencilShape) (A : ℕ → Submatrix) (x : ℕ → Subvector ℚ) (computeReg : Region)
    (y : ℕ → Subvector ℚ) : ℕ → Subvector ℚ :=
  computeReg.zipIdx.foldl (fun y sra =>
    Function.update y sra.2 (sra.1.foldl (matvecBox alpha stencil (A sra.2) (x sra.2)) (y sra.2))) y

def matvec (alpha : ℚ) (stencil : StencilShape) (A : ℕ → Submatrix) (grid : Grid) (xDuring xAfter : ℕ → Subvector ℚ)
    (beta : ℚ) (y : ℕ → Subvector ℚ) : ℕ → Subvector ℚ :=
  if alpha = 0 then forSubgrids (mapBox fun v => v * beta) grid.subgrids y
  else
    let pkg := createComputePkgs grid .all
    let y := forSubgrids (initY (beta / alpha)) grid.subgrids y
    let y := matvecRegion alpha stencil A xDuring pkg.indRegion y
    matvecRegion alpha stencil A xAfter pkg.depRegion y

end ParFlow

/-! Storage of a matrix (`NewMatrixType` in `matrix.c`): a data space for each subgrid, and the places of
the coefficients in the data array. With symmetry on, an element below the diagonal has no place of its own
and is read from its partner above. -/

namespace ParFlow

/-! ## Partners of the elements below the diagonal -/

/-- `n += ((x) < 0 ? -1 : 1) * w` unless `x` is zero. -/
def addSign (n x w : ℤ) : ℤ := if x ≠ 0 then n + (if x < 0 then -1 else 1) * w else n

def triangleSide (v : Cell) : ℤ := addSign (addSign (addSign 0 v.2.2 4) v.2.1 2) v.1 1

/-- The comparison of two elements. The first component is compared twice and the third one not at all. -/
def matchesPartner (v w : Cell) : Prop := v.1 = -w.1 ∧ v.2.1 = -w.2.1 ∧ v.1 = -w.1

instance (v w : Cell) : Decidable (matchesPartner v w) := inferInstanceAs (Decidable (_ ∧ _))

/-- The entry `symmetric_coeff[k]`; zero stands for no partner. The last match stays. -/
def symmetricCoeff (shape : StencilShape) (symmetry : Bool) (k : ℕ) : ℕ :=
  if symmetry ∧ triangleSide (stencilElt shape k) < 0 then
    (List.range shape.length).foldl (fun sc n => if matchesPartner (stencilElt shape n) (stencilElt shape k) then n else sc) 0
  else 0

/-! ## The table of places -/

/-- The places of the elements that are stored, and the size of the data array. -/
def upperIndex (shape : StencilShape) (sc : ℕ → ℕ) (n : ℤ) : (ℕ → ℤ) × ℤ :=
  (List.range shape.length).foldl (fun st k => if sc k = 0 then (Function.update st.1 k st.2, st.2 + n) else st) (fun _ => 0, 0)

/-- The distance of the element's cell in a data array. -/
def flatShift (nx ny : ℤ) (v : Cell) : ℤ := (v.2.2 * ny + v.2.1) * nx + v.1

def lowerIndex (shape : StencilShape) (sc : ℕ → ℕ) (nx ny : ℤ) (dataIndex : ℕ → ℤ) : ℕ → ℤ :=
  (List.range shape.length).foldl (fun dataIndex k =>
    if sc k ≠ 0 then Function.update dataIndex k (dataIndex (sc k) + flatShift nx ny (stencilElt shape k)) else dataIndex) dataIndex

def matrixDataIndex (shape : StencilShape) (symmetry : Bool) (dataSpace : Subregion) : ℕ → ℤ :=
  let sc := symmetricCoeff shape symmetry
  let n := dataSpace.nx * dataSpace.ny * dataSpace.nz
  lowerIndex shape sc dataSpace.nx dataSpace.ny (upperIndex shape sc n).1

/-! ## Data spaces -/

/-- The layers below and above that the elements of a stencil reach along one axis. -/
def ghostLayers (ghost : List ℤ) : ℤ × ℤ :=
  ghost.foldl (fun l n => if n < 0 then (max l.1 (-n), l.2) else (l.1, max l.2 n)) (0, 0)

/-- The data space on a subgrid: with ghost layers, projected to the range. -/
def matrixDataSpace (subgrid range : Subregion) (ghost : StencilShape) : Subregion :=
  let x := ghostLayers (ghost.map fun v => v.1)
  let y := ghostLayers (ghost.map fun v => v.2.1)
  let z := ghostLayers (ghost.map fun v => v.2.2)
  if subgrid.nx ≠ 0 ∧ subgrid.ny ≠ 0 ∧ subgrid.nz ≠ 0 then
    (projectSubgrid { subgrid with
      ix := subgrid.ix - x.1, iy := subgrid.iy - y.1, iz := subgrid.iz - z.1
      nx := subgrid.nx + (x.1 + x.2), ny := subgrid.ny + (y.1 + y.2), nz := subgrid.nz + (z.1 + z.2) }
      range.sx range.sy range.sz range.ix range.iy range.iz).1
  else subgrid

/-- The submatrix on a subgrid. A stencil without elements is no ghost layer, a missing range is the subgrid. -/
def newSubmatrix (subgrid : Subgrid) (range : Option Subregion) (stencil : StencilShape) (symmetry : Bool)
    (ghost : StencilShape) : Submatrix :=
  let dataSpace := matrixDataSpace subgrid (range.getD subgrid) ghost
  ⟨dataSpace, matrixDataIndex stencil symmetry dataSpace, fun _ => 0⟩

end ParFlow

/-! Pointwise red/black Gauss-Seidel (`rb_GS_point.c`) in exact arithmetic. The order of the sweeps does
not depend on data, so that all processes take the same sweeps; the exchange of a sweep brings the vectors
of all processes together. -/

namespace ParFlow

/-! ## Sweeps over a region -/

/-- The loop over the subregions of a region, with the subvector of each subgrid. -/
def forSubregions (body : ℕ → Subvector ℚ → Subregion → Subvector ℚ) (computeReg : Region) (x : ℕ → Subvector ℚ) :
    ℕ → Subvector ℚ :=
  computeReg.zipIdx.foldl (fun x sra => Function.update x sra.2 (sra.1.foldl (body sra.2) (x sra.2))) x

/-- The loop with the body `x0[iv] = bp[iv] / a0[im]`. -/
def firstBox (A : Submatrix) (b x : Subvector ℚ) (box : Subregion) : Subvector ℚ :=
  let a0 := submatrixElt A 0 box.ix box.iy box.iz
  let x0 := subvectorEltIndex x.dataSpace box.ix box.iy box.iz
  let bp := subvectorEltIndex b.dataSpace box.ix box.iy box.iz
  { x with
    data := (boxLoopI2 box.ix box.iy box.iz box.nx box.ny box.nz 0 x.dataSpace.nx x.dataSpace.ny box.sx box.sy box.sz
      0 A.dataSpace.nx A.dataSpace.ny box.sx box.sy box.sz).foldl (fun data i =>
        Function.update data (x0 + i.2.1) (b.data (bp + i.2.1) / A.data (a0 + i.2.2))) x.data }

/-- The loop with the body `x0[iv] = (bp[iv] - (a1[im] * x1[iv] + ... + a6[im] * x6[iv])) / a0[im]`. -/
def sweepBox (s : StencilShape) (A : Submatrix) (b x : Subvector ℚ) (box : Subregion) : Subvector ℚ :=
  let a := fun e => submatrixElt A e box.ix box.iy box.iz
  let x0 := subvectorEltIndex x.dataSpace box.ix box.iy box.iz
  let xe := fun e => subvectorEltIndex x.dataSpace (box.ix + (stencilElt s e).1) (box.iy + (stencilElt s e).2.1)
    (box.iz + (stencilElt s e).2.2)
  let bp := subvectorEltIndex b.dataSpace box.ix box.iy box.iz
  { x with
    data := (boxLoopI2 box.ix box.iy box.iz box.nx box.ny box.nz 0 x.dataSpace.nx x.dataSpace.ny box.sx box.sy box.sz
      0 A.dataSpace.nx A.dataSpace.ny box.sx box.sy box.sz).foldl (fun data i =>
        Function.update data (x0 + i.2.1) ((b.data (bp + i.2.1) -
          ([1, 2, 3, 4, 5, 6].map fun e => A.data (a e + i.2.2) * data (xe e + i.2.1)).sum) / A.data (a 0 + i.2.2))) x.data }

def initVector (value : ℚ) (grid : Grid) (x : ℕ → Subvector ℚ) : ℕ → Subvector ℚ :=
  grid.subgrids.zipIdx.foldl (fun x sg => Function.update x sg.2 (mapBox (fun _ => value) sg.1 (x sg.2))) x

/-! ## The order of the sweeps -/

/-- What the sweeps do to a state: `InitVector(x, 0.0)`, the red sweep for a start vector of zeros, and the
half sweep with the given `count` and `rb`. -/
structure Sweeps (σ : Type*) where
  init : σ → σ
  first : σ → σ
  half : ℕ → Bool → σ → σ

def regularIterations {σ : Type*} (S : Sweeps σ) (maxIter : ℤ) (count : ℕ) (rb : Bool) (x : σ) : σ :=
  if ((count / 2 : ℕ) : ℤ) ≤ maxIter then regularIterations S maxIter (count + 1) (!rb) (S.half count rb x) else x
termination_by (2 * maxIter + 2 - count).toNat
decreasing_by omega

def redBlackOrder {σ : Type*} (S : Sweeps σ) (maxIter : ℤ) (symmetric zero : Bool) (x : σ) : σ :=
  let count := if symmetric then 1 else 2
  if zero then
    let count := count + 1
    if ((count / 2 : ℕ) : ℤ) > maxIter then
      let x := S.init x
      if !symmetric then x else regularIterations S maxIter count true (S.first x)
    else regularIterations S maxIter count true (S.first x)
  else regularIterations S maxIter count false x

/-! ## The processes of a grid -/

/-- Red points are computed with the black ones of other processes. -/
def sweepMode (rb : Bool) : UpdateMode := if rb then .bPoint else .rPoint

/-- What the exchange of a half sweep does to the vector of a process: until the independent region has
been computed, and until `FinalizeVectorUpdate` returns. It knows the vectors of all processes at its start. -/
structure VectorUpdate where
  during : (ℤ → ℕ → Subvector ℚ) → ℤ → ℕ → Subvector ℚ
  finalize : (ℤ → ℕ → Subvector ℚ) → ℤ → (ℕ → Subvector ℚ) → ℕ → Subvector ℚ

/-- The sweeps of all processes, with the exchange `update count rb` in each half sweep. -/
def processSweeps (allSubgrids : SubgridArray) (s : StencilShape) (A : ℤ → ℕ → Submatrix) (b : ℤ → ℕ → Subvector ℚ)
    (update : ℕ → Bool → VectorUpdate) : Sweeps (ℤ → ℕ → Subvector ℚ) where
  init := fun x p => initVector 0 (gridOn allSubgrids p) (x p)
  first := fun x p =>
    let pkg := createComputePkgs (gridOn allSubgrids p) .rPoint
    let x := forSubregions (fun i => firstBox (A p i) (b p i)) pkg.indRegion (x p)
    forSubregions (fun i => firstBox (A p i) (b p i)) pkg.depRegion x
  half := fun count rb x p =>
    let pkg := createComputePkgs (gridOn allSubgrids p) (sweepMode rb)
    let y := forSubregions (fun i => sweepBox s (A p i) (b p i)) pkg.indRegion ((update count rb).during x p)
    forSubregions (fun i => sweepBox s (A p i) (b p i)) pkg.depRegion ((update count rb).finalize x p y)

def redBlackGSPoint (allSubgrids : SubgridArray) (s : StencilShape) (A : ℤ → ℕ → Submatrix) (b : ℤ → ℕ → Subvector ℚ)
    (update : ℕ → Bool → VectorUpdate) (maxIter : ℤ) (symmetric zero : Bool) (x : ℤ → ℕ → Subvector ℚ) :
    ℤ → ℕ → Subvector ℚ :=
  redBlackOrder (processSweeps allSubgrids s A b update) maxIter symmetric zero x

end ParFlow
