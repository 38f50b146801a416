import ParFlow.Lib.ExceptLoop
import ParFlow.Comm.ComputeDefs

/-! Multigrid with semi-coarsening (`mg_semi.c`): the levels that `MGSemiInitInstanceXtra` sets up and the V-cycles
of `MGSemi`. What lies behind the pointers in the arrays of the levels (modules, matrices, vectors and packages) is
left open; the arrays themselves are checked. Logging and timing are left out. -/

namespace ParFlow

open IntLoop CheckedArray

/-! ## Coarsening subgrids -/

/-- The loop of `Exp2`; `e` counts the divisions. -/
def exp2Loop (p : ℤ) (e : ℤ) : ℤ :=
  if h : p > 1 then
    if p.tmod 2 ≠ 0 then -1 else exp2Loop (p.tdiv 2) (e + 1)
  else e
termination_by p.toNat
decreasing_by
  have hlt : p.tdiv 2 < p := by
    rw [Int.tdiv_eq_ediv_of_nonneg (by omega)]
    omega
  omega

def exp2 (p : ℤ) : ℤ := exp2Loop p 0

/-- `none` is `NULL`. -/
def convertToSubgrid (subregion : Subregion) : Option Subgrid :=
  let ex := exp2 subregion.sx
  let ey := exp2 subregion.sy
  let ez := exp2 subregion.sz
  if subregion.ix.tmod subregion.sx ≠ 0 ∨ subregion.iy.tmod subregion.sy ≠ 0 ∨ subregion.iz.tmod subregion.sz ≠ 0 then none
  else if ex < 0 then none
  else if ey < 0 then none
  else if ez < 0 then none
  else some { subregion with
    ix := subregion.ix.tdiv subregion.sx
    iy := subregion.iy.tdiv subregion.sy
    iz := subregion.iz.tdiv subregion.sz
    sx := 1
    sy := 1
    sz := 1
    rx := subregion.rx - ex
    ry := subregion.ry - ey
    rz := subregion.rz - ez }

/-- The strides `sx`, `sy` and `sz` of a direction. -/
def coarseStride : Axis → Cell
  | .x => (2, 1, 1)
  | .y => (1, 2, 1)
  | .z => (1, 1, 2)

def cIndex : ℤ := 0

def fIndex : ℤ := 1

def projectOnto (dir : Axis) (index : ℤ) (subgrid : Subgrid) : Subregion :=
  (projectSubgrid subgrid (coarseStride dir).1 (coarseStride dir).2.1 (coarseStride dir).2.2 index index index).1

def coarsenSubgrids (dir : Axis) (allSubgrids : SubgridArray) : Option SubgridArray :=
  allSubgrids.mapM fun subgrid => convertToSubgrid (projectOnto dir cIndex subgrid)

/-- The grids of the levels, and for each but the last one the fine and the coarse regions. -/
structure GridLevels where
  gridL : List Grid
  fSraL : List SubgridArray
  cSraL : List SubgridArray

/-- The loop over the levels, from the grid of a level and the directions from it on. -/
def coarsenGrid (myProc : ℤ) : Grid → List Axis → Option GridLevels
  | grid, [] => some ⟨[grid], [], []⟩
  | grid, dir :: coarsenL => do
    let allSubgrids ← coarsenSubgrids dir grid.allSubgrids
    let levels ← coarsenGrid myProc (gridOn allSubgrids myProc) coarsenL
    some ⟨grid :: levels.gridL, grid.subgrids.map (projectOnto dir fIndex) :: levels.fSraL,
      grid.subgrids.map (projectOnto dir cIndex) :: levels.cSraL⟩

/-! ## Directions -/

section Directions

variable {K : Type} [Field K] [LinearOrder K]

/-- `DX`, `DY`, `DZ` and `NX`, `NY`, `NZ`. -/
structure Spacing (K : Type) where
  d : Axis → K
  n : Axis → ℤ

/-- One of the tests for a smaller spacing; the state is `min_spacing` and its direction. -/
def trySpacing (minN : Axis → ℤ) (s : Spacing K) (m : K × Option Axis) (a : Axis) : K × Option Axis :=
  if s.n a ≥ minN a ∧ s.d a < m.1 then (s.d a, some a) else m

def minSpacingDirection (minN : Axis → ℤ) (s : Spacing K) : Option Axis :=
  ([Axis.x, .y, .z].foldl (trySpacing minN s) (s.d .x + s.d .y + s.d .z, none)).2

def Spacing.coarsen (s : Spacing K) (a : Axis) : Spacing K :=
  ⟨Function.update s.d a (s.d a * (2 : ℤ)), Function.update s.n a ((s.n a + 1).tdiv 2)⟩

/-- The entries of `coarsen_l`, from a number of rounds that may be left. -/
def coarsenDirections (minN : Axis → ℤ) : ℕ → Spacing K → List Axis
  | 0, _ => []
  | rounds + 1, s =>
    match minSpacingDirection minN s with
    | none => []
    | some a => a :: coarsenDirections minN rounds (s.coarsen a)

end Directions

/-! ## The instance -/

structure MGSemiPublicXtra where
  maxIter : ℤ
  maxLevels : ℤ
  minN : Axis → ℤ

/-- What the pointers point to (`σ`), and what the routines do with it. -/
structure MGSemiOps (K σ Module Matrix Vector ComputePkg CommPkg : Type) where
  /-- what `talloc` leaves in the arrays of pointers -/
  garbage : Vector × CommPkg × Module
  newSmooth : Grid → Module
  newMatrix : Grid → Matrix
  newTransfer : Grid → SubgridArray → Axis → Matrix
  newRestrictComputePkg : Grid → Axis → ComputePkg
  newProlongComputePkg : Grid → Axis → ComputePkg
  newVector : Grid → σ → Vector × σ
  newVectorCommPkg : Vector → ComputePkg → σ → CommPkg × σ
  copy : Vector → Vector → σ → σ
  /-- `Matvec(-1.0, A, x, 1.0, y)` -/
  matvec : Matrix → Vector → Vector → σ → σ
  innerProd : Vector → Vector → σ → K
  axpy : Vector → Vector → σ → σ
  smooth : Module → Vector → Vector → Bool → σ → σ
  solve : Vector → Vector → σ → σ
  restrict : Matrix → Vector → Vector → Matrix → SubgridArray → SubgridArray → ComputePkg → CommPkg → σ → σ
  prolong : Matrix → Vector → Vector → Matrix → SubgridArray → SubgridArray → ComputePkg → CommPkg → σ → σ
  freeVector : Vector → σ → σ
  freeCommPkg : CommPkg → σ → σ

section

variable {K σ Module Matrix Vector Pkg CommPkg : Type} [Field K] [LinearOrder K]

structure MGSemiInstance (Module Matrix Pkg : Type) where
  numLevels : ℤ
  gridL : List Grid
  fSraL : List SubgridArray
  cSraL : List SubgridArray
  restrictComputePkgL : List Pkg
  prolongComputePkgL : List Pkg
  aL : List Matrix
  pL : List Matrix
  smoothL : List Module

variable (ops : MGSemiOps K σ Module Matrix Vector Pkg CommPkg)

/-- `A` is the matrix of the finest level. -/
def mgSemiInitInstanceXtra (xtra : MGSemiPublicXtra) (s : Spacing K) (myProc : ℤ) (grid : Grid) (A : Matrix) :
    Option (MGSemiInstance Module Matrix Pkg) := do
  let minN := fun a => max (2 * xtra.minN a - 1) 2
  let coarsenL := coarsenDirections minN (xtra.maxLevels - 1).toNat s
  let levels ← coarsenGrid myProc grid coarsenL
  some {
    numLevels := coarsenL.length + 1
    gridL := levels.gridL
    fSraL := levels.fSraL
    cSraL := levels.cSraL
    restrictComputePkgL := List.zipWith ops.newRestrictComputePkg levels.gridL coarsenL
    prolongComputePkgL := List.zipWith ops.newProlongComputePkg levels.gridL coarsenL
    aL := A :: levels.gridL.tail.map ops.newMatrix
    pL := List.zipWith (fun g (f, dir) => ops.newTransfer g f dir) levels.gridL (levels.fSraL.zip coarsenL)
    smoothL := levels.gridL.dropLast.map ops.newSmooth ++ [ops.garbage.2.2] }

/-! ## V-cycles -/

/-- The arrays that `MGSemi` allocates. -/
structure MGSemiWork (Vector CommPkg : Type) where
  xL : List Vector
  bL : List Vector
  tempVecL : List Vector
  restrictCommPkgL : List CommPkg
  prolongCommPkgL : List CommPkg

variable (inst : MGSemiInstance Module Matrix Pkg)

/-- The vectors of level `l + 1` and the packages of level `l`. -/
def allocLevel (s : MGSemiWork Vector CommPkg × σ) (l : ℤ) : Except Fault (MGSemiWork Vector CommPkg × σ) := do
  let (w, m) := s
  let grid ← read inst.gridL (l + 1)
  let (x, m) := ops.newVector grid m
  let xL ← write w.xL (l + 1) x
  let (b, m) := ops.newVector grid m
  let bL ← write w.bL (l + 1) b
  let (t, m) := ops.newVector grid m
  let tempVecL ← write w.tempVecL (l + 1) t
  let temp ← read tempVecL l
  let restrictPkg ← read inst.restrictComputePkgL l
  let (r, m) := ops.newVectorCommPkg temp restrictPkg m
  let restrictCommPkgL ← write w.restrictCommPkgL l r
  let prolongPkg ← read inst.prolongComputePkgL l
  let (p, m) := ops.newVectorCommPkg temp prolongPkg m
  let prolongCommPkgL ← write w.prolongCommPkgL l p
  .ok (⟨xL, bL, tempVecL, restrictCommPkgL, prolongCommPkgL⟩, m)

def allocWork (m : σ) : Except Fault (MGSemiWork Vector CommPkg × σ) := do
  let vectors := List.replicate inst.numLevels.toNat ops.garbage.1
  let pkgs := List.replicate (inst.numLevels - 1).toNat ops.garbage.2.1
  let grid ← read inst.gridL 0
  let (t, m) := ops.newVector grid m
  let tempVecL ← write vectors 0 t
  (upto 0 (inst.numLevels - 1)).foldlM (allocLevel ops inst) (⟨vectors, vectors, tempVecL, pkgs, pkgs⟩, m)

variable (w : MGSemiWork Vector CommPkg)

/-- `MGSemiRestrict` from level `l`, whose matrix is `A`, to level `l + 1`. -/
def restrictResidual (A : Matrix) (l : ℤ) (m : σ) : Except Fault σ := do
  let temp ← read w.tempVecL l
  let b ← read w.bL (l + 1)
  let P ← read inst.pL l
  let f ← read inst.fSraL l
  let c ← read inst.cSraL l
  let pkg ← read inst.restrictComputePkgL l
  let comm ← read w.restrictCommPkgL l
  .ok (ops.restrict A temp b P f c pkg comm m)

/-- `MGSemiProlong` from level `l + 1` to level `l`. -/
def prolongError (A : Matrix) (l : ℤ) (m : σ) : Except Fault σ := do
  let temp ← read w.tempVecL l
  let x ← read w.xL (l + 1)
  let P ← read inst.pL l
  let f ← read inst.fSraL l
  let c ← read inst.cSraL l
  let pkg ← read inst.prolongComputePkgL l
  let comm ← read w.prolongCommPkgL l
  .ok (ops.prolong A temp x P f c pkg comm m)

/-- One level of the down cycle. -/
def downLevel (m : σ) (l : ℤ) : Except Fault σ := do
  let smooth ← read inst.smoothL l
  let x ← read w.xL l
  let b ← read w.bL l
  let m := ops.smooth smooth x b true m
  let temp ← read w.tempVecL l
  let m := ops.copy b temp m
  let A ← read inst.aL l
  let m := ops.matvec A x temp m
  restrictResidual ops inst w A l m

/-- One level of the up cycle. -/
def upLevel (m : σ) (l : ℤ) : Except Fault σ := do
  let A ← read inst.aL l
  let m ← prolongError ops inst w A l m
  let temp ← read w.tempVecL l
  let x ← read w.xL l
  let m := ops.axpy temp x m
  let smooth ← read inst.smoothL l
  let b ← read w.bL l
  .ok (ops.smooth smooth x b false m)

/-- The cycle from the restriction of the finest residual to the last smoothing. -/
def vCycle (A : Matrix) (smooth : Module) (x b temp : Vector) (m : σ) : Except Fault σ := do
  let m ← restrictResidual ops inst w A 0 m
  let m ← (upto 1 (inst.numLevels - 2 + 1)).foldlM (downLevel ops inst w) m
  -- where the loop leaves its variable
  let l := max 1 (inst.numLevels - 2 + 1)
  let xBottom ← read w.xL l
  let bBottom ← read w.bL l
  let m := ops.solve xBottom bBottom m
  let m ← (upto 1 (inst.numLevels - 2 + 1)).reverse.foldlM (upLevel ops inst w) m
  let m ← prolongError ops inst w A 0 m
  let m := ops.axpy temp x m
  .ok (ops.smooth smooth x b false m)

/-- `while (++i)`; `rounds` is `max_iter - i`, so that none is left when `(i + 1) > max_iter`. -/
def mgSemiLoop (A : Matrix) (smooth : Module) (x b temp : Vector) (tol eps : K) : ℕ → Bool → σ → Except Fault σ
  | 0, _, m => .ok m
  | rounds + 1, almostConverged, m => do
    let m := ops.matvec A x temp (ops.copy b temp m)
    let almostConverged :=
      if tol > 0 ∧ ¬ almostConverged then decide (ops.innerProd temp temp m < eps) else almostConverged
    let m ← vCycle ops inst w A smooth x b temp m
    let tested := decide (tol > 0) && almostConverged
    let m := if tested then ops.matvec A x temp (ops.copy b temp m) else m
    if tested ∧ ops.innerProd temp temp m < eps then .ok m
    else if rounds = 0 then .ok m
    else mgSemiLoop A smooth x b temp tol eps rounds almostConverged (ops.smooth smooth x b false m)

def freeLevel (m : σ) (l : ℤ) : Except Fault σ := do
  let x ← read w.xL (l + 1)
  let b ← read w.bL (l + 1)
  let t ← read w.tempVecL (l + 1)
  let r ← read w.restrictCommPkgL l
  let p ← read w.prolongCommPkgL l
  .ok (ops.freeCommPkg p (ops.freeCommPkg r (ops.freeVector t (ops.freeVector b (ops.freeVector x m)))))

def mgSemi (xtra : MGSemiPublicXtra) (x b : Vector) (tol : K) (zero : Bool) (m : σ) : Except Fault σ := do
  let A ← read inst.aL 0
  let (w, m) ← allocWork ops inst m
  if 0 + 1 > xtra.maxIter then .ok (ops.copy b x m)
  else do
    let eps := if tol > 0 then tol * tol * ops.innerProd b b m else 0
    let smooth ← read inst.smoothL 0
    let m := ops.smooth smooth x b zero m
    let temp ← read w.tempVecL 0
    let m ← mgSemiLoop ops inst w A smooth x b temp tol eps xtra.maxIter.toNat false m
    let m := ops.freeVector temp m
    (upto 0 (inst.numLevels - 1)).foldlM (freeLevel ops w) m

end

end ParFlow
