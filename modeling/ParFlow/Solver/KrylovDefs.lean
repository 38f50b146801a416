import ParFlow.Lib.IntLoop
import ParFlow.Lib.Numerals
import ParFlow.Comm.ExchangeRun
import ParFlow.Solver.MatrixDefs

/-! The solvers `PCG` (`pcg.c`), `CGHS` (`cghs.c`) and `Chebyshev` (`chebyshev.c`), in exact arithmetic. They know vectors
by the routines that they call, which are then given on the subvectors of all processes. -/

namespace ParFlow

open scoped Numerals

/-! ## The solvers -/

/-- A routine returns the vectors that it writes. `matvec` gets the number of its call and returns `x` as well, in which
it updates the ghost cells. -/
structure VectorRoutines (V K : Type) where
  initVector : V → K → V
  copy : V → V → V
  scale : K → V → V
  axpy : K → V → V → V
  innerProd : V → V → K
  matvec : ℕ → K → V → K → V → V × V
  precond : V → V → V

/-- The variables of a loop of conjugate gradients. -/
structure CgState (V K : Type) where
  i : ℕ
  x : V
  r : V
  p : V
  s : V
  gamma : K
  iProd : K

section

variable {V K : Type} [Field K] [LinearOrder K] (R : VectorRoutines V K)

/-- The body of the loop in `PCG`, and whether it ends with the `break`. -/
def pcgStep (twoNorm : Bool) (eps : K) (st : CgState V K) : CgState V K × Bool :=
  let i := st.i + 1
  let ps := R.matvec i 1 st.p 0 st.s
  let alpha := st.gamma / R.innerProd ps.2 ps.1
  let x := R.axpy alpha ps.1 st.x
  let r := R.axpy (-alpha) ps.2 st.r
  let s := R.precond ps.2 r
  let gamma := R.innerProd r s
  let iProd := if twoNorm then R.innerProd r r else gamma
  if iProd < eps then (⟨i, x, r, ps.1, s, gamma, iProd⟩, true)
  else
    let beta := gamma / st.gamma
    let p := R.scale beta ps.1
    let p := R.axpy 1 s p
    (⟨i, x, r, p, s, gamma, iProd⟩, false)

/-- The body of the loop in `CGHS`. -/
def cghsStep (eps : K) (st : CgState V K) : CgState V K × Bool :=
  let i := st.i + 1
  let ps := R.matvec i 1 st.p 0 st.s
  let alpha := st.gamma / R.innerProd ps.2 ps.1
  let x := R.axpy alpha ps.1 st.x
  let r := R.axpy (-alpha) ps.2 st.r
  let gamma := R.innerProd r r
  if gamma < eps then (⟨i, x, r, ps.1, ps.2, gamma, gamma⟩, true)
  else
    let beta := gamma / st.gamma
    let p := R.scale beta ps.1
    let p := R.axpy 1 r p
    (⟨i, x, r, p, ps.2, gamma, gamma⟩, false)

/-- `while (((i + 1) <= max_iter) && (gamma > 0))`, where so many rounds are left. -/
def cgLoop (step : CgState V K → CgState V K × Bool) : ℕ → CgState V K → CgState V K
  | 0, st => st
  | n + 1, st =>
    if 0 < st.gamma then
      if (step st).2 then (step st).1 else cgLoop step n (step st).1
    else st

/-- The bound for the convergence test, and the variables before the loop: `b` is overwritten with the residual, `p` and `s`
are the new vectors. -/
def pcgStart (twoNorm : Bool) (p s x b : V) (tol : K) (zero : Bool) : K × CgState V K :=
  let x := if zero then R.initVector x 0 else x
  let p := if twoNorm then p else R.precond p b
  let biProd := if twoNorm then R.innerProd b b else R.innerProd p b
  let eps := tol * tol * biProd
  let xr := R.matvec 0 (-1) x 1 b
  let p := R.precond p xr.2
  (eps, ⟨0, xr.1, xr.2, p, s, R.innerProd xr.2 p, 0⟩)

def pcg (maxIter : ℤ) (twoNorm : Bool) (p s x b : V) (tol : K) (zero : Bool) : CgState V K :=
  let start := pcgStart R twoNorm p s x b tol zero
  cgLoop (pcgStep R twoNorm start.1) maxIter.toNat start.2

def cghsStart (p s x b : V) (tol : K) (zero : Bool) : K × CgState V K :=
  let x := if zero then R.initVector x 0 else x
  let eps := tol * tol * R.innerProd b b
  let xr := R.matvec 0 (-1) x 1 b
  let p := R.copy xr.2 p
  (eps, ⟨0, xr.1, xr.2, p, s, R.innerProd xr.2 xr.2, 0⟩)

def cghs (maxIter : ℤ) (p s x b : V) (tol : K) (zero : Bool) : CgState V K :=
  let start := cghsStart R p s x b tol zero
  cgLoop (cghsStep R start.1) maxIter.toNat start.2

/-- The variables of the loop in `Chebyshev`. -/
structure ChebyshevState (V K : Type) where
  i : ℕ
  x : V
  r : V
  del : V
  alpha : K

def chebyshevStep (b : V) (d c22 : K) (st : ChebyshevState V K) : ChebyshevState V K :=
  let i := st.i + 1
  let alpha := 1 / (d - c22 * st.alpha)
  let beta := d * alpha - 1
  let xr := R.matvec i (-1) st.x 0 st.r
  let r := R.axpy 1 b xr.2
  let del := R.scale beta st.del
  let del := R.axpy alpha r del
  ⟨i, R.axpy 1 del xr.1, r, del, alpha⟩

/-- Returns `x`, for the interval from `ia` to `ib`. -/
def chebyshev (r del x b : V) (ia ib : K) (numIter : ℤ) : V :=
  let x := R.copy b x
  if 1 > numIter then x
  else
    let d := 1 / 2 * (ib + ia)
    let alpha := 1 / d
    let x := R.scale alpha x
    if 2 > numIter then x
    else
      let c22 := 1 / 4 * (ib - ia)
      let c22 := c22 * c22
      let alpha := alpha * 2
      let del := R.copy x del
      ((chebyshevStep R b d c22)^[(numIter - 1).toNat] ⟨1, x, r, del, alpha⟩).x

end

/-! ## The routines on one process -/

/-- A `BoxLoopI1` with the body `yp[iv] = f(xp[iv], yp[iv])`, which runs over both arrays with the strides of `y`. -/
def zipBox (f : ℚ → ℚ → ℚ) (x : Subvector ℚ) (box : Subregion) (y : Subvector ℚ) : Subvector ℚ :=
  let yp := subvectorEltIndex y.dataSpace box.ix box.iy box.iz
  let xp := subvectorEltIndex x.dataSpace box.ix box.iy box.iz
  { y with
    data := (boxLoopI1 box.ix box.iy box.iz box.nx box.ny box.nz 0 y.dataSpace.nx y.dataSpace.ny 1 1 1).foldl
      (fun data i => Function.update data (yp + i.2) (f (x.data (xp + i.2)) (data (yp + i.2)))) y.data }

/-- A `BoxLoopI2` with the body `yp[i_y] = xp[i_x]`. -/
def copyBox (x : Subvector ℚ) (box : Subregion) (y : Subvector ℚ) : Subvector ℚ :=
  let yp := subvectorEltIndex y.dataSpace box.ix box.iy box.iz
  let xp := subvectorEltIndex x.dataSpace box.ix box.iy box.iz
  { y with
    data := (boxLoopI2 box.ix box.iy box.iz box.nx box.ny box.nz 0 x.dataSpace.nx x.dataSpace.ny 1 1 1
      0 y.dataSpace.nx y.dataSpace.ny 1 1 1).foldl
      (fun data i => Function.update data (yp + i.2.2) (x.data (xp + i.2.1))) y.data }

/-- A `BoxLoopReduceI1` that adds `yp[iv] * xp[iv]`. -/
def innerBox (x y : Subvector ℚ) (box : Subregion) (result : ℚ) : ℚ :=
  let yp := subvectorEltIndex y.dataSpace box.ix box.iy box.iz
  let xp := subvectorEltIndex x.dataSpace box.ix box.iy box.iz
  (boxLoopI1 box.ix box.iy box.iz box.nx box.ny box.nz 0 y.dataSpace.nx y.dataSpace.ny 1 1 1).foldl
    (fun result i => result + y.data (yp + i.2) * x.data (xp + i.2)) result

/-! ## The routines on all processes -/

/-- A vector of all processes: the subvector of each, which has one subgrid at most. -/
abbrev DistVector := ℤ → Subvector ℚ

/-- The exchanges of a run of a solver, with their messages in any order: what each process has of the `n`-th one, which
starts with the vector `x`, when it computes the first region, and when it has waited for the end. -/
structure Exchanges (L : Layout) (g : ℤ) (method : ℤ → PackMethod) where
  during : ℕ → DistVector → DistVector
  after : ℕ → DistVector → DistVector
  inFlight : ∀ n x, ∀ s ∈ L.allSubgrids, ∃ σ, L.Exchanging g method x σ ∧ σ.phase s.process ≠ .idle ∧
    during n x s.process = Layout.seen x σ s.process
  finished : ∀ n x, ∀ s ∈ L.allSubgrids, ∃ σ, L.Exchanging g method x σ ∧ σ.phase s.process = .finished ∧
    after n x s.process = Layout.seen x σ s.process

section

variable (L : Layout) {g : ℤ} {method : ℤ → PackMethod}

/-- Each process runs the loop over its subgrids. -/
def onEachProcess (body : ℤ → Subgrid → Subvector ℚ → Subvector ℚ) (y : DistVector) : DistVector :=
  fun p => (L.own p).foldl (fun y s => body p s y) (y p)

/-- `InnerProd`, with the sum over the processes by `amps_AllReduce`. -/
def distInnerProd (numProcs : ℤ) (x y : DistVector) : ℚ :=
  ((IntLoop.upto 0 numProcs).map fun p => (L.own p).foldl (fun result s => innerBox (x p) (y p) s result) 0).sum

/-- For `alpha = 0` there is no exchange. -/
def distMatvec (E : Exchanges L g method) (stencil : StencilShape) (A : ℤ → Submatrix) (n : ℕ) (alpha : ℚ) (x : DistVector)
    (beta : ℚ) (y : DistVector) : DistVector × DistVector :=
  (if alpha = 0 then x else E.after n x, fun p => matvec alpha stencil (fun _ => A p) (gridOn L.allSubgrids p)
    (fun _ => E.during n x p) (fun _ => E.after n x p) beta (fun _ => y p) 0)

/-- The preconditioner is a module that the solvers know by a pointer. -/
def distRoutines (numProcs : ℤ) (E : Exchanges L g method) (stencil : StencilShape) (A : ℤ → Submatrix)
    (precond : DistVector → DistVector → DistVector) : VectorRoutines DistVector ℚ where
  initVector v value := onEachProcess L (fun _ => mapBox fun _ => value) v
  copy x y := onEachProcess L (fun p => copyBox (x p)) y
  scale alpha y := onEachProcess L (fun _ => mapBox fun v => v * alpha) y
  axpy alpha x y := onEachProcess L (fun p => zipBox (fun u v => v + alpha * u) (x p)) y
  innerProd := distInnerProd L numProcs
  matvec := distMatvec L E stencil A
  precond := precond

end

end ParFlow
