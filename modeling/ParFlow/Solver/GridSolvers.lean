import ParFlow.Solver.ChebyshevErrors
import ParFlow.Solver.DistVectors

/-! What the solvers return on the processes of a grid, in any order of the messages. -/

namespace ParFlow

open Cover Subregion ConjugateGradient Krylov
open scoped Numerals

namespace Layout

variable {L : Layout} {numProcs g : ℤ} {stencil : StencilShape} {A : ℤ → Submatrix} {method : ℤ → PackMethod}
  {precond : DistVector → DistVector → DistVector} {p s x b : DistVector}

/-- An equation with a matrix and a preconditioner that are symmetric and positive definite. -/
structure Equation (L : Layout) (stencil : StencilShape) (A : ℤ → Submatrix) where
  C : (L.gridCells → ℚ) →ₗ[ℚ] (L.gridCells → ℚ)
  A_symm : ∀ u v, dotProduct (L.gridMatrix stencil A u) v = dotProduct u (L.gridMatrix stencil A v)
  A_pos : ∀ u, u ≠ 0 → 0 < dotProduct (L.gridMatrix stencil A u) u
  C_symm : ∀ u v, dotProduct (C u) v = dotProduct u (C v)
  C_pos : ∀ u, u ≠ 0 → 0 < dotProduct u (C u)

theorem dotProduct_self_nonneg (u : L.gridCells → ℚ) : 0 ≤ dotProduct u u :=
  Finset.sum_nonneg fun c _ => mul_self_nonneg (u c)

def Equation.system (Q : L.Equation stencil A) (b : L.gridCells → ℚ) : System ℚ (L.gridCells → ℚ) where
  inner := dotProductBilin ℚ ℚ
  A := L.gridMatrix stencil A
  C := Q.C
  b := b
  inner_comm := dotProduct_comm
  inner_nonneg := dotProduct_self_nonneg
  A_symm := Q.A_symm
  A_pos := Q.A_pos
  C_symm := Q.C_symm
  C_pos := Q.C_pos

/-- The vectors that a solver gets, where `p` and `s` are the new ones. -/
structure SolverVectors (L : Layout) (g : ℤ) (p s x b : DistVector) : Prop where
  p : L.HasGhosts g p
  s : L.HasGhosts g s
  x : L.HasGhosts g x
  b : L.HasGhosts g b

theorem SolverVectors.start (h : L.SolverVectors g p s x b) (Q : L.Equation stencil A) :
    Start (L.HasGhosts g) L.value (Q.system (L.value b)) p s x b := ⟨h.p, h.s, h.x, h.b, rfl⟩

theorem finrank_le {maxIter : ℤ} (h : (L.gridCells.card : ℤ) ≤ maxIter) :
    (Module.finrank ℚ (L.gridCells → ℚ) : ℤ) ≤ maxIter := by
  rwa [Module.finrank_fintype_fun_eq_card, Fintype.card_coe]

/-- There are such exchanges: no process waits for ever. -/
theorem nonempty_exchanges (hone : L.OnePerProcess) (hg : 1 ≤ g) (hm : ∀ p, (method p).Sized) :
    Nonempty (Exchanges L g method) := by
  choose σ hσ hfin using fun x : DistVector => exists_exchanged hone hg hm x
  exact ⟨⟨fun _ x p => seen x (σ x) p, fun _ x p => seen x (σ x) p,
    fun _ x s hs => ⟨σ x, hσ x, by rw [hfin x s hs]; decide, rfl⟩, fun _ x s hs => ⟨σ x, hσ x, hfin x s hs, rfl⟩⟩⟩

/-! ## Two cells on two processes -/

/-- The rows `2, -1` and `-1, 2`. -/
def pairRows (p : ℤ) : Submatrix where
  dataSpace := newSubgrid p 0 0 1 1 1 0 0 0 p
  dataIndex e := e
  data a := if a = 0 then 2 else if a = 2 - p then -1 else 0

theorem pair_onGrid : pair.OnGrid 2 1 sevenPoint pairRows where
  onePerProcess := by
    unfold OnePerProcess
    decide
  process := by decide
  unitStride := by decide
  ghost := le_rfl
  stencil_mem := by decide
  matrix := fun s _ => ⟨rfl, rfl, rfl⟩
  boundary := by
    decide

def firstCell : pair.gridCells := ⟨(0, 0, 0), by decide⟩

def secondCell : pair.gridCells := ⟨(1, 0, 0), by decide⟩

theorem pair_dotProduct (u v : pair.gridCells → ℚ) :
    dotProduct u v = u firstCell * v firstCell + u secondCell * v secondCell := by
  have huniv : (Finset.univ : Finset pair.gridCells) = {firstCell, secondCell} := by decide
  unfold dotProduct
  rw [huniv, Finset.sum_pair (by decide)]

theorem pair_extend (u : pair.gridCells → ℚ) (c : Cell) : pair.extend u c =
    if c = (0, 0, 0) then u firstCell else if c = (1, 0, 0) then u secondCell else 0 := by
  have hmem : ∀ c : Cell, c ∈ pair.gridCells ↔ c = (0, 0, 0) ∨ c = (1, 0, 0) := by
    intro c
    rw [show pair.gridCells = {(0, 0, 0), (1, 0, 0)} by decide, Finset.mem_insert, Finset.mem_singleton]
  unfold extend
  by_cases h₀ : c = (0, 0, 0)
  · subst h₀
    rfl
  · by_cases h₁ : c = (1, 0, 0)
    · subst h₁
      rfl
    · rw [dif_neg (by rw [hmem]; tauto), if_neg h₀, if_neg h₁]

theorem pair_gridMatrix (u : pair.gridCells → ℚ) :
    pair.gridMatrix sevenPoint pairRows u firstCell = 2 * u firstCell - u secondCell ∧
    pair.gridMatrix sevenPoint pairRows u secondCell = 2 * u secondCell - u firstCell := by
  have hrow : ∀ s ∈ pair.allSubgrids, ∀ c : pair.gridCells, (c : Cell) ∈ s.cells →
      pair.gridMatrix sevenPoint pairRows u c = termSum sevenPoint.zipIdx (pairRows s.process) (pair.extend u) c :=
    fun s hs c hc => gridRow_eq u hs hc
  constructor
  · rw [hrow (newSubgrid 0 0 0 1 1 1 0 0 0 0) (by decide) firstCell (by decide)]
    simp [termSum, sevenPoint, Submatrix.coeff, submatrixElt, submatrixEltIndex, pairRows, newSubgrid, pair_extend,
      firstCell]
    ring
  · rw [hrow (newSubgrid 1 0 0 1 1 1 0 0 0 1) (by decide) secondCell (by decide)]
    simp [termSum, sevenPoint, Submatrix.coeff, submatrixElt, submatrixEltIndex, pairRows, newSubgrid, pair_extend,
      secondCell]
    ring

theorem pair_pos {u : pair.gridCells → ℚ} (hu : u ≠ 0) : 0 < u firstCell ^ 2 + u secondCell ^ 2 := by
  by_contra hno
  have hfirst : u firstCell = 0 := by nlinarith [sq_nonneg (u firstCell), sq_nonneg (u secondCell)]
  have hsecond : u secondCell = 0 := by nlinarith [sq_nonneg (u firstCell), sq_nonneg (u secondCell)]
  refine hu (funext fun c => ?_)
  have hc : ∀ c : pair.gridCells, c = firstCell ∨ c = secondCell := by decide
  rcases hc c with rfl | rfl
  · exact hfirst
  · exact hsecond

theorem pair_symm (u v : pair.gridCells → ℚ) : dotProduct (pair.gridMatrix sevenPoint pairRows u) v =
    dotProduct u (pair.gridMatrix sevenPoint pairRows v) := by
  rw [pair_dotProduct, pair_dotProduct, (pair_gridMatrix u).1, (pair_gridMatrix u).2, (pair_gridMatrix v).1,
    (pair_gridMatrix v).2]
  ring

/-- The forms of the matrix lie between one and three. -/
theorem pair_bounds (u : pair.gridCells → ℚ) : 1 * dotProduct u u ≤ dotProduct (pair.gridMatrix sevenPoint pairRows u) u ∧
    dotProduct (pair.gridMatrix sevenPoint pairRows u) u ≤ 3 * dotProduct u u := by
  rw [pair_dotProduct, pair_dotProduct, (pair_gridMatrix u).1, (pair_gridMatrix u).2]
  constructor
  · linarith [sq_nonneg (u firstCell - u secondCell)]
  · linarith [sq_nonneg (u firstCell + u secondCell)]

theorem pair_self_pos (u : pair.gridCells → ℚ) (hu : u ≠ 0) : 0 < dotProduct u u := by
  rw [pair_dotProduct, ← pow_two, ← pow_two]
  exact pair_pos hu

def pairEquation : pair.Equation sevenPoint pairRows where
  C := LinearMap.id
  A_symm := pair_symm
  A_pos u hu := (pair_self_pos u hu).trans_le (by simpa using (pair_bounds u).1)
  C_symm _ _ := rfl
  C_pos := pair_self_pos

/-- The preconditioner that copies the residual. -/
def copyPrecond (s r : DistVector) : DistVector := onEachProcess pair (fun p => copyBox (r p)) s

theorem constantVector_hasGhosts (v : ℚ) : pair.HasGhosts 1 (constantVector v) := by
  have hall : ∀ s ∈ pair.allSubgrids, s = newSubgrid s.process 0 0 1 1 1 0 0 0 s.process := by decide
  intro s hs
  rw [hall s hs]
  rfl

theorem pair_vectors : pair.SolverVectors 1 (constantVector 0) (constantVector 0) (constantVector 7) (constantVector 2) :=
  ⟨constantVector_hasGhosts 0, constantVector_hasGhosts 0, constantVector_hasGhosts 7, constantVector_hasGhosts 2⟩

theorem vector_sized (p : ℤ) : ((fun _ => .vector : ℤ → PackMethod) p).Sized := trivial

theorem pair_exchanges_nonempty : Nonempty (Exchanges pair 1 fun _ => .vector) :=
  nonempty_exchanges pair_onGrid.onePerProcess le_rfl vector_sized

theorem pair_preconditions (E : Exchanges pair 1 fun _ => .vector) :
    Preconditions (distRoutines pair 2 E sevenPoint pairRows copyPrecond) (pair.HasGhosts 1) pair.value pairEquation.C :=
  fun hs hr => (pair_onGrid.represents vector_sized E copyPrecond).copy hr hs

/-! ## The solvers -/

/-- After `i` iterations `PCG` has the best point that `i` products with the preconditioned matrix allow. -/
theorem pcg_nearest (h : L.OnGrid numProcs g stencil A) (hm : ∀ p, (method p).Sized) (E : Exchanges L g method)
    (Q : L.Equation stencil A) (hC : Preconditions (distRoutines L numProcs E stencil A precond) (L.HasGhosts g) L.value Q.C)
    (hv : L.SolverVectors g p s x b) (maxIter : ℤ) (twoNorm zero : Bool) (tol : ℚ) :
    let S := Q.system (L.value b)
    let st := pcg (distRoutines L numProcs E stencil A precond) maxIter twoNorm p s x b tol zero
    SolvedBy S (if zero then 0 else L.value x) maxIter (residualSize S twoNorm) tol st.i (L.value st.x) (L.value st.r) :=
  (pcg_solvedBy (S := Q.system (L.value b)) (h.represents hm E precond) hC (hv.start Q)).2

theorem pair_pcg_nearest : ∃ E : Exchanges pair 1 fun _ => .vector,
    let S := pairEquation.system (pair.value (constantVector 2))
    let st := pcg (distRoutines pair 2 E sevenPoint pairRows copyPrecond) 1 false (constantVector 0) (constantVector 0)
      (constantVector 7) (constantVector 2) (1 / 10) true
    SolvedBy S 0 1 (residualSize S false) (1 / 10) st.i (pair.value st.x) (pair.value st.r) := by
  obtain ⟨E⟩ := pair_exchanges_nonempty
  exact ⟨E, pcg_nearest pair_onGrid vector_sized E pairEquation (pair_preconditions E) pair_vectors 1 false true (1 / 10)⟩

/-- Without a tolerance `PCG` solves the equation, when the iterations are as many as the cells. -/
theorem pcg_exact (h : L.OnGrid numProcs g stencil A) (hm : ∀ p, (method p).Sized) (E : Exchanges L g method)
    (Q : L.Equation stencil A) (hC : Preconditions (distRoutines L numProcs E stencil A precond) (L.HasGhosts g) L.value Q.C)
    (hv : L.SolverVectors g p s x b) {maxIter : ℤ} (hiter : (L.gridCells.card : ℤ) ≤ maxIter) (twoNorm zero : Bool) :
    L.gridMatrix stencil A (L.value (pcg (distRoutines L numProcs E stencil A precond) maxIter twoNorm p s x b 0 zero).x) =
      L.value b :=
  pcg_solves (S := Q.system (L.value b)) (finrank_le hiter) (h.represents hm E precond) hC (hv.start Q)

theorem pair_pcg_exact : ∃ E : Exchanges pair 1 fun _ => .vector,
    pair.gridMatrix sevenPoint pairRows (pair.value (pcg (distRoutines pair 2 E sevenPoint pairRows copyPrecond) 2 true
      (constantVector 0) (constantVector 0) (constantVector 7) (constantVector 2) 0 false).x) =
      pair.value (constantVector 2) := by
  obtain ⟨E⟩ := pair_exchanges_nonempty
  exact ⟨E, pcg_exact pair_onGrid vector_sized E pairEquation (pair_preconditions E) pair_vectors (by decide) true false⟩

/-- `CGHS` does the same without a preconditioner. -/
theorem cghs_nearest (h : L.OnGrid numProcs g stencil A) (hm : ∀ p, (method p).Sized) (E : Exchanges L g method)
    (Q : L.Equation stencil A) (hC : Q.C = LinearMap.id) (hv : L.SolverVectors g p s x b) (maxIter : ℤ) (zero : Bool)
    (tol : ℚ) :
    let S := Q.system (L.value b)
    let st := cghs (distRoutines L numProcs E stencil A precond) maxIter p s x b tol zero
    SolvedBy S (if zero then 0 else L.value x) maxIter (residualSize S true) tol st.i (L.value st.x) (L.value st.r) ∧
      (tol = 0 → (L.gridCells.card : ℤ) ≤ maxIter → L.gridMatrix stencil A (L.value st.x) = L.value b) := by
  have hR := h.represents hm E precond
  refine ⟨(cghs_solvedBy (S := Q.system (L.value b)) hR hC (hv.start Q)).2, ?_⟩
  rintro rfl hiter
  exact cghs_solves (S := Q.system (L.value b)) (finrank_le hiter) hR hC (hv.start Q)

theorem pair_cghs_nearest : ∃ E : Exchanges pair 1 fun _ => .vector,
    let S := pairEquation.system (pair.value (constantVector 2))
    let st := cghs (distRoutines pair 2 E sevenPoint pairRows copyPrecond) 2 (constantVector 0) (constantVector 0)
      (constantVector 7) (constantVector 2) 0 true
    SolvedBy S 0 2 (residualSize S true) 0 st.i (pair.value st.x) (pair.value st.r) ∧
      ((0 : ℚ) = 0 → (pair.gridCells.card : ℤ) ≤ 2 →
        pair.gridMatrix sevenPoint pairRows (pair.value st.x) = pair.value (constantVector 2)) := by
  obtain ⟨E⟩ := pair_exchanges_nonempty
  exact ⟨E, cghs_nearest pair_onGrid vector_sized E pairEquation rfl pair_vectors 2 true 0⟩

/-- For a symmetric matrix with its forms between `ia` and `ib`, the error of `Chebyshev` is at most the one of zero times
the power of `(ib - ia) / (ib + ia)`. -/
theorem chebyshev_error (h : L.OnGrid numProcs g stencil A) (hm : ∀ p, (method p).Sized) (E : Exchanges L g method)
    (hA : ∀ u v, dotProduct (L.gridMatrix stencil A u) v = dotProduct u (L.gridMatrix stencil A v)) {ia ib : ℚ} (ha : 0 < ia)
    (hle : ia ≤ ib) (hlo : ∀ u, ia * dotProduct u u ≤ dotProduct (L.gridMatrix stencil A u) u)
    (hhi : ∀ u, dotProduct (L.gridMatrix stencil A u) u ≤ ib * dotProduct u u) (hv : L.SolverVectors g p s x b) {numIter : ℤ}
    (hiter : 1 ≤ numIter) {y : L.gridCells → ℚ} (hy : L.gridMatrix stencil A y = L.value b) :
    let e := y - L.value (chebyshev (distRoutines L numProcs E stencil A precond) p s x b ia ib numIter)
    (ib + ia) ^ (2 * numIter.toNat) * dotProduct e e ≤ (ib - ia) ^ (2 * numIter.toNat) * dotProduct y y := by
  obtain ⟨n, rfl⟩ : ∃ n : ℕ, numIter = n + 1 := ⟨(numIter - 1).toNat, by omega⟩
  exact chebyshev_error_pow_le dotProduct_self_nonneg (h.represents hm E precond) hv.p hv.s hv.x hv.b hy hA ha hle hlo hhi

/-- The solution for the right-hand side `2, 3`. -/
def pairSolution (c : pair.gridCells) : ℚ := if c = firstCell then 7 / 3 else 8 / 3

theorem pairSolution_eq : pair.gridMatrix sevenPoint pairRows pairSolution = pair.value (constantVector 2) := by
  have hvalue : ∀ s ∈ pair.allSubgrids, ∀ c : pair.gridCells, (c : Cell) ∈ s.cells →
      pair.value (constantVector 2) c = 2 + (s.process : ℚ) := fun s hs c hc => value_eq hs hc
  have hsecond : pairSolution secondCell = 8 / 3 := if_neg (by decide)
  funext c
  have hc : ∀ c : pair.gridCells, c = firstCell ∨ c = secondCell := by decide
  rcases hc c with rfl | rfl
  · rw [(pair_gridMatrix _).1, hsecond, hvalue (newSubgrid 0 0 0 1 1 1 0 0 0 0) (by decide) firstCell (by decide)]
    show 2 * (7 / 3) - 8 / 3 = 2 + ((0 : ℤ) : ℚ)
    norm_num
  · rw [(pair_gridMatrix _).2, hsecond, hvalue (newSubgrid 1 0 0 1 1 1 0 0 0 1) (by decide) secondCell (by decide)]
    show 2 * (8 / 3) - 7 / 3 = 2 + ((1 : ℤ) : ℚ)
    norm_num

theorem pair_chebyshev_error : ∃ E : Exchanges pair 1 fun _ => .vector,
    let e := pairSolution - pair.value (chebyshev (distRoutines pair 2 E sevenPoint pairRows copyPrecond) (constantVector 0)
      (constantVector 0) (constantVector 7) (constantVector 2) 1 3 4)
    (3 + 1 : ℚ) ^ (2 * (4 : ℤ).toNat) * dotProduct e e ≤
      (3 - 1) ^ (2 * (4 : ℤ).toNat) * dotProduct pairSolution pairSolution := by
  obtain ⟨E⟩ := pair_exchanges_nonempty
  exact ⟨E, chebyshev_error pair_onGrid vector_sized E pair_symm one_pos (by norm_num) (fun u => (pair_bounds u).1)
    (fun u => (pair_bounds u).2) pair_vectors (by decide) pairSolution_eq⟩

end Layout

end ParFlow
