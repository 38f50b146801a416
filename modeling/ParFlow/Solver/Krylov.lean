import ParFlow.Lib.ConjugateGradient
import ParFlow.Solver.KrylovDefs

/-! `PCG` and `CGHS` are the method of conjugate gradients, for any routines that compute what they should with the values
of the vectors. -/

namespace ParFlow.Krylov

open ConjugateGradient

variable {V K E : Type} [Field K] [LinearOrder K] [AddCommGroup E] [Module K E]

/-- The routines on valid vectors, by the values of the vectors. -/
structure Represents (R : VectorRoutines V K) (Valid : V → Prop) (val : V → E) (inner : LinearMap.BilinForm K E)
    (A : E →ₗ[K] E) : Prop where
  initVector : ∀ {v}, Valid v → Valid (R.initVector v 0) ∧ val (R.initVector v 0) = 0
  copy : ∀ {x y}, Valid x → Valid y → Valid (R.copy x y) ∧ val (R.copy x y) = val x
  scale : ∀ a {y}, Valid y → Valid (R.scale a y) ∧ val (R.scale a y) = a • val y
  axpy : ∀ a {x y}, Valid x → Valid y → Valid (R.axpy a x y) ∧ val (R.axpy a x y) = val y + a • val x
  innerProd : ∀ {x y}, Valid x → Valid y → R.innerProd x y = inner (val x) (val y)
  matvec : ∀ n {a} (b) {x y}, a ≠ 0 → Valid x → Valid y →
    (Valid (R.matvec n a x b y).1 ∧ val (R.matvec n a x b y).1 = val x) ∧
    Valid (R.matvec n a x b y).2 ∧ val (R.matvec n a x b y).2 = a • A (val x) + b • val y

/-- The preconditioner is a linear map of the values. -/
def Preconditions (R : VectorRoutines V K) (Valid : V → Prop) (val : V → E) (C : E →ₗ[K] E) : Prop :=
  ∀ {s r}, Valid s → Valid r → Valid (R.precond s r) ∧ val (R.precond s r) = C (val r)

/-- A state has the point and the residual of a step of the method. -/
structure Reaches (Valid : V → Prop) (val : V → E) (S : System K E) (x₀ : E) (n : ℕ) (st : CgState V K) : Prop where
  i : st.i = n
  x_valid : Valid st.x
  r_valid : Valid st.r
  x : val st.x = (S.run x₀ n).x
  r : val st.r = (S.run x₀ n).r
  gamma : st.gamma = (S.run x₀ n).gamma

/-- It has the direction of the next step as well. -/
structure Follows (Valid : V → Prop) (val : V → E) (S : System K E) (x₀ : E) (n : ℕ) (st : CgState V K) : Prop
    extends Reaches Valid val S x₀ n st where
  p_valid : Valid st.p
  s_valid : Valid st.s
  p : val st.p = (S.run x₀ n).p

/-- What the convergence test takes for the size of a residual. -/
def residualSize (S : System K E) (twoNorm : Bool) (r : E) : K := if twoNorm then S.inner r r else S.inner r (S.C r)

theorem residualSize_nonneg (S : System K E) (twoNorm : Bool) (r : E) : 0 ≤ residualSize S twoNorm r := by
  cases twoNorm
  · exact S.inner_C_nonneg r
  · exact S.inner_nonneg r

section Steps

variable {R : VectorRoutines V K} {Valid : V → Prop} {val : V → E} {S : System K E} {x₀ : E} {n : ℕ} {st : CgState V K}
  {eps : K} {twoNorm : Bool}

/-- A body of the loop makes one step of the method, and ends the loop for a small residual only. -/
def StepsAlong (step : CgState V K → CgState V K × Bool) (Valid : V → Prop) (val : V → E) (S : System K E) (x₀ : E)
    (size : E → K) (eps : K) : Prop :=
  ∀ {n st}, Follows Valid val S x₀ n st → Reaches Valid val S x₀ (n + 1) (step st).1 ∧
    if (step st).2 then size (S.run x₀ (n + 1)).r < eps else Follows Valid val S x₀ (n + 1) (step st).1

/-- The part of the step that both solvers have in common. -/
theorem Follows.advance (hR : Represents R Valid val S.inner S.A) (h : Follows Valid val S x₀ n st) :
    let ps := R.matvec (st.i + 1) 1 st.p 0 st.s
    let alpha := st.gamma / R.innerProd ps.2 ps.1
    (Valid ps.1 ∧ val ps.1 = (S.run x₀ n).p) ∧ Valid ps.2 ∧
      (Valid (R.axpy alpha ps.1 st.x) ∧ val (R.axpy alpha ps.1 st.x) = (S.run x₀ (n + 1)).x) ∧
      Valid (R.axpy (-alpha) ps.2 st.r) ∧ val (R.axpy (-alpha) ps.2 st.r) = (S.run x₀ (n + 1)).r := by
  intro ps alpha
  obtain ⟨⟨hp, hpv⟩, hs, hsv⟩ := hR.matvec (st.i + 1) 0 one_ne_zero h.p_valid h.s_valid
  rw [one_smul, zero_smul, add_zero, h.p] at hsv
  rw [h.p] at hpv
  have halpha : alpha = S.alpha (S.run x₀ n) := by
    show st.gamma / R.innerProd ps.2 ps.1 = _
    rw [hR.innerProd hs hp, hsv, hpv, h.gamma]
    rfl
  obtain ⟨hx, hxv⟩ := hR.axpy alpha hp h.x_valid
  obtain ⟨hr, hrv⟩ := hR.axpy (-alpha) hs h.r_valid
  refine ⟨⟨hp, hpv⟩, hs, ⟨hx, ?_⟩, hr, ?_⟩
  · rw [hxv, h.x, hpv, halpha]
    rfl
  · rw [hrv, h.r, hsv, halpha, neg_smul, ← sub_eq_add_neg]
    rfl

theorem pcgStep_along (hR : Represents R Valid val S.inner S.A) (hC : Preconditions R Valid val S.C) :
    StepsAlong (pcgStep R twoNorm eps) Valid val S x₀ (residualSize S twoNorm) eps := by
  intro n st h
  obtain ⟨⟨hp, hpv⟩, hs, ⟨hx, hxv⟩, hr, hrv⟩ := h.advance hR
  unfold pcgStep
  simp only
  set ps := R.matvec (st.i + 1) 1 st.p 0 st.s
  set alpha := st.gamma / R.innerProd ps.2 ps.1
  set x := R.axpy alpha ps.1 st.x
  set r := R.axpy (-alpha) ps.2 st.r
  obtain ⟨hCr, hCrv⟩ := hC hs hr
  set s' := R.precond ps.2 r
  have hgamma : R.innerProd r s' = (S.run x₀ (n + 1)).gamma := by
    rw [hR.innerProd hr hCr, hCrv, hrv]
    rfl
  have hsize : (if twoNorm then R.innerProd r r else R.innerProd r s') = residualSize S twoNorm (S.run x₀ (n + 1)).r := by
    unfold residualSize
    rw [hR.innerProd hr hr, hR.innerProd hr hCr, hCrv, hrv]
  rw [hsize]
  have hreach : ∀ {p s i}, Reaches Valid val S x₀ (n + 1) ⟨st.i + 1, x, r, p, s, R.innerProd r s', i⟩ :=
    ⟨congrArg (· + 1) h.i, hx, hr, hxv, hrv, hgamma⟩
  by_cases hlt : residualSize S twoNorm (S.run x₀ (n + 1)).r < eps
  · rw [if_pos hlt]
    exact ⟨hreach, hlt⟩
  · rw [if_neg hlt]
    obtain ⟨hsc, hscv⟩ := hR.scale (R.innerProd r s' / st.gamma) hp
    obtain ⟨hax, haxv⟩ := hR.axpy 1 hCr hsc
    refine ⟨hreach, hreach, hax, hCr, ?_⟩
    rw [haxv, hscv, hpv, hCrv, hrv, one_smul, hgamma, h.gamma, add_comm, System.p_succ]

theorem cghsStep_along (hR : Represents R Valid val S.inner S.A) (hC : S.C = LinearMap.id) :
    StepsAlong (cghsStep R eps) Valid val S x₀ (residualSize S true) eps := by
  intro n st h
  obtain ⟨⟨hp, hpv⟩, hs, ⟨hx, hxv⟩, hr, hrv⟩ := h.advance hR
  unfold cghsStep
  simp only
  set ps := R.matvec (st.i + 1) 1 st.p 0 st.s
  set alpha := st.gamma / R.innerProd ps.2 ps.1
  set x := R.axpy alpha ps.1 st.x
  set r := R.axpy (-alpha) ps.2 st.r
  have hsize : R.innerProd r r = residualSize S true (S.run x₀ (n + 1)).r := by
    rw [hR.innerProd hr hr, hrv]
    rfl
  have hgamma : residualSize S true (S.run x₀ (n + 1)).r = (S.run x₀ (n + 1)).gamma := by
    rw [System.gamma_eq, hC]
    rfl
  rw [hsize]
  have hreach : ∀ {p}, Reaches Valid val S x₀ (n + 1)
      ⟨st.i + 1, x, r, p, ps.2, residualSize S true (S.run x₀ (n + 1)).r, residualSize S true (S.run x₀ (n + 1)).r⟩ :=
    ⟨congrArg (· + 1) h.i, hx, hr, hxv, hrv, hgamma⟩
  by_cases hlt : residualSize S true (S.run x₀ (n + 1)).r < eps
  · rw [if_pos hlt]
    exact ⟨hreach, hlt⟩
  · rw [if_neg hlt]
    obtain ⟨hsc, hscv⟩ := hR.scale (residualSize S true (S.run x₀ (n + 1)).r / st.gamma) hp
    obtain ⟨hax, haxv⟩ := hR.axpy 1 hr hsc
    refine ⟨hreach, hreach, hax, hs, ?_⟩
    rw [haxv, hscv, hpv, hrv, one_smul, hgamma, h.gamma, add_comm, System.p_succ, hC, LinearMap.id_apply]

/-- A run of the loop ends after `k` steps of the method, at the latest when the rounds are used up. -/
theorem cgLoop_reaches {step : CgState V K → CgState V K × Bool} {size : E → K}
    (hstep : StepsAlong step Valid val S x₀ size eps)
    (m : ℕ) (h : Follows Valid val S x₀ n st) (hpos : ∀ i < n, 0 < (S.run x₀ i).gamma) :
    ∃ k ≤ n + m, Reaches Valid val S x₀ k (cgLoop step m st) ∧ (∀ i < k, 0 < (S.run x₀ i).gamma) ∧
      (k = n + m ∨ (S.run x₀ k).gamma = 0 ∨ size (S.run x₀ k).r < eps) := by
  induction m generalizing n st with
  | zero => exact ⟨n, le_rfl, h.toReaches, hpos, Or.inl rfl⟩
  | succ m ih =>
    rw [cgLoop]
    by_cases hg : 0 < st.gamma
    · rw [if_pos hg]
      have hposn : ∀ i < n + 1, 0 < (S.run x₀ i).gamma := by
        intro i hi
        rcases Nat.lt_succ_iff_lt_or_eq.mp hi with hlt | rfl
        · exact hpos i hlt
        · rw [← h.gamma]
          exact hg
      obtain ⟨hreach, hend⟩ := hstep h
      split_ifs with hbreak
      · rw [if_pos hbreak] at hend
        exact ⟨n + 1, by omega, hreach, hposn, Or.inr (Or.inr hend)⟩
      · rw [if_neg hbreak] at hend
        obtain ⟨k, hk, hreachk, hposk, hendk⟩ := ih hend hposn
        refine ⟨k, by omega, hreachk, hposk, ?_⟩
        rwa [show n + (m + 1) = n + 1 + m by omega]
    · rw [if_neg hg]
      refine ⟨n, by omega, h.toReaches, hpos, Or.inr (Or.inl ?_)⟩
      rw [h.gamma] at hg
      exact le_antisymm (not_lt.mp hg) (System.gamma_nonneg x₀ n)

end Steps

/-! ## The solvers -/

/-- The end of a solver: a point that is nearest to the solution among those of a Krylov space, with its residual, when the
iterations are used up, the equation holds or the residual is small. -/
structure SolvedBy (S : System K E) (x₀ : E) (maxIter : ℤ) (size : E → K) (tol : K) (i : ℕ) (x r : E) : Prop where
  i_le : i ≤ maxIter.toNat
  residual : r = S.b - S.A x
  mem : x - x₀ ∈ S.krylov x₀ i
  nearest : ∀ y, S.A y = S.b → ∀ d ∈ S.krylov x₀ i, S.energy y x ≤ S.energy y (x₀ + d)
  ends : i = maxIter.toNat ∨ S.A x = S.b ∨ size r < tol * tol * size S.b

section Solvers

variable [IsStrictOrderedRing K] {R : VectorRoutines V K} {Valid : V → Prop} {val : V → E} {S : System K E} {x₀ : E}
  {st : CgState V K} {maxIter : ℤ} {step : CgState V K → CgState V K × Bool} {size : E → K} {tol : K}

theorem solvedBy_of_along (hstep : StepsAlong step Valid val S x₀ size (tol * tol * size S.b))
    (h : Follows Valid val S x₀ 0 st) : Valid (cgLoop step maxIter.toNat st).x ∧
      SolvedBy S x₀ maxIter size tol (cgLoop step maxIter.toNat st).i (val (cgLoop step maxIter.toNat st).x)
        (val (cgLoop step maxIter.toNat st).r) := by
  obtain ⟨k, hk, hreach, hpos, hend⟩ := cgLoop_reaches hstep maxIter.toNat h fun i hi => absurd hi (Nat.not_lt_zero i)
  rw [zero_add] at hk hend
  refine ⟨hreach.x_valid, ?_⟩
  rw [hreach.i, hreach.x, hreach.r]
  refine ⟨hk, System.residual x₀ k, System.x_mem_krylov x₀ k, fun y hy d hd => System.energy_le hy hpos hd, ?_⟩
  exact hend.imp_right (Or.imp_left System.solves_of_gamma)

/-- Without a tolerance the loop stops at the solution, when the iterations suffice for all dimensions. -/
theorem solves_of_along [FiniteDimensional K E] (hstep : StepsAlong step Valid val S x₀ size 0) (hsize : ∀ r, 0 ≤ size r)
    (h : Follows Valid val S x₀ 0 st) (hiter : (Module.finrank K E : ℤ) ≤ maxIter) :
    S.A (val (cgLoop step maxIter.toNat st).x) = S.b := by
  obtain ⟨k, hk, hreach, hpos, hend⟩ := cgLoop_reaches hstep maxIter.toNat h fun i hi => absurd hi (Nat.not_lt_zero i)
  rw [zero_add] at hk hend
  rw [hreach.x]
  apply System.solves_of_gamma
  rcases hend with hk | hg | hlt
  · -- a residual vanishes within the dimension, and none before the end does
    obtain ⟨n, hn, hzero⟩ := System.exists_gamma_eq_zero (S := S) x₀
    have hkn : k = n := le_antisymm (not_lt.mp fun hlt => (hpos n hlt).ne' hzero) (by omega)
    rwa [hkn]
  · exact hg
  · exact absurd hlt (not_lt.mpr (hsize _))

variable {p s x b : V} {zero twoNorm : Bool}

/-- What is asked of the vectors that a solver gets: `p` and `s` are new ones. -/
structure Start (Valid : V → Prop) (val : V → E) (S : System K E) (p s x b : V) : Prop where
  p_valid : Valid p
  s_valid : Valid s
  x_valid : Valid x
  b_valid : Valid b
  b : val b = S.b

/-- The point and the residual before the loop. -/
theorem Start.residual (hR : Represents R Valid val S.inner S.A) (h : Start Valid val S p s x b) (zero : Bool) :
    let xr := R.matvec 0 (-1) (if zero then R.initVector x 0 else x) 1 b
    (Valid xr.1 ∧ val xr.1 = if zero then 0 else val x) ∧ Valid xr.2 ∧
      val xr.2 = S.b - S.A (if zero then 0 else val x) := by
  intro xr
  have hx' : Valid (if zero then R.initVector x 0 else x) ∧
      val (if zero then R.initVector x 0 else x) = if zero then 0 else val x := by
    cases zero
    · exact ⟨h.x_valid, rfl⟩
    · exact hR.initVector h.x_valid
  obtain ⟨⟨hxr, hxrv⟩, hr, hrv⟩ := hR.matvec 0 1 (neg_ne_zero.mpr one_ne_zero : (-1 : K) ≠ 0) hx'.1 h.b_valid
  refine ⟨⟨hxr, hxrv.trans hx'.2⟩, hr, ?_⟩
  rw [hrv, hx'.2, h.b, one_smul, neg_smul, one_smul, neg_add_eq_sub]

theorem pcgStart_follows (hR : Represents R Valid val S.inner S.A) (hC : Preconditions R Valid val S.C)
    (h : Start Valid val S p s x b) (twoNorm : Bool) (tol : K) (zero : Bool) :
    (pcgStart R twoNorm p s x b tol zero).1 = tol * tol * residualSize S twoNorm S.b ∧
      Follows Valid val S (if zero then 0 else val x) 0 (pcgStart R twoNorm p s x b tol zero).2 := by
  obtain ⟨⟨hxr, hxrv⟩, hr, hrv⟩ := h.residual hR zero
  unfold pcgStart
  simp only
  set xr := R.matvec 0 (-1) (if zero then R.initVector x 0 else x) 1 b
  have hp' : Valid (if twoNorm then p else R.precond p b) := by
    cases twoNorm
    · exact (hC h.p_valid h.b_valid).1
    · exact h.p_valid
  obtain ⟨hCr, hCrv⟩ := hC hp' hr
  refine ⟨?_, ⟨rfl, hxr, hr, hxrv, hrv, ?_⟩, hCr, h.s_valid, ?_⟩
  · cases twoNorm
    · show _ * R.innerProd (R.precond p b) b = _ * S.inner S.b (S.C S.b)
      rw [hR.innerProd (hC h.p_valid h.b_valid).1 h.b_valid, (hC h.p_valid h.b_valid).2, h.b, S.inner_comm]
    · show _ * R.innerProd b b = _ * S.inner S.b S.b
      rw [hR.innerProd h.b_valid h.b_valid, h.b]
  · rw [hR.innerProd hr hCr, hCrv, hrv]
    rfl
  · rw [hCrv, hrv]
    rfl

theorem cghsStart_follows (hR : Represents R Valid val S.inner S.A) (hC : S.C = LinearMap.id)
    (h : Start Valid val S p s x b) (tol : K) (zero : Bool) :
    (cghsStart R p s x b tol zero).1 = tol * tol * residualSize S true S.b ∧
      Follows Valid val S (if zero then 0 else val x) 0 (cghsStart R p s x b tol zero).2 := by
  obtain ⟨⟨hxr, hxrv⟩, hr, hrv⟩ := h.residual hR zero
  unfold cghsStart
  simp only
  set xr := R.matvec 0 (-1) (if zero then R.initVector x 0 else x) 1 b
  obtain ⟨hcopy, hcopyv⟩ := hR.copy hr h.p_valid
  refine ⟨?_, ⟨rfl, hxr, hr, hxrv, hrv, ?_⟩, hcopy, h.s_valid, ?_⟩
  · rw [hR.innerProd h.b_valid h.b_valid, h.b]
    rfl
  · rw [hR.innerProd hr hr, System.gamma_eq, hC, hrv]
    rfl
  · rw [hcopyv, hrv]
    show _ = S.C _
    rw [hC]
    rfl

theorem pcg_solvedBy (hR : Represents R Valid val S.inner S.A) (hC : Preconditions R Valid val S.C)
    (h : Start Valid val S p s x b) : Valid (pcg R maxIter twoNorm p s x b tol zero).x ∧
      SolvedBy S (if zero then 0 else val x) maxIter (residualSize S twoNorm) tol (pcg R maxIter twoNorm p s x b tol zero).i
        (val (pcg R maxIter twoNorm p s x b tol zero).x) (val (pcg R maxIter twoNorm p s x b tol zero).r) := by
  obtain ⟨heps, hstart⟩ := pcgStart_follows hR hC h twoNorm tol zero
  unfold pcg
  simp only [heps]
  exact solvedBy_of_along (pcgStep_along hR hC) hstart

theorem cghs_solvedBy (hR : Represents R Valid val S.inner S.A) (hC : S.C = LinearMap.id) (h : Start Valid val S p s x b) :
    Valid (cghs R maxIter p s x b tol zero).x ∧
      SolvedBy S (if zero then 0 else val x) maxIter (residualSize S true) tol (cghs R maxIter p s x b tol zero).i
        (val (cghs R maxIter p s x b tol zero).x) (val (cghs R maxIter p s x b tol zero).r) := by
  obtain ⟨heps, hstart⟩ := cghsStart_follows hR hC h tol zero
  unfold cghs
  simp only [heps]
  exact solvedBy_of_along (cghsStep_along hR hC) hstart

variable [FiniteDimensional K E] (hiter : (Module.finrank K E : ℤ) ≤ maxIter)

include hiter

theorem pcg_solves (hR : Represents R Valid val S.inner S.A) (hC : Preconditions R Valid val S.C)
    (h : Start Valid val S p s x b) : S.A (val (pcg R maxIter twoNorm p s x b 0 zero).x) = S.b := by
  obtain ⟨heps, hstart⟩ := pcgStart_follows hR hC h twoNorm 0 zero
  rw [mul_zero, zero_mul] at heps
  unfold pcg
  simp only [heps]
  exact solves_of_along (pcgStep_along hR hC) (residualSize_nonneg S twoNorm) hstart hiter

theorem cghs_solves (hR : Represents R Valid val S.inner S.A) (hC : S.C = LinearMap.id) (h : Start Valid val S p s x b) :
    S.A (val (cghs R maxIter p s x b 0 zero).x) = S.b := by
  obtain ⟨heps, hstart⟩ := cghsStart_follows hR hC h 0 zero
  rw [mul_zero, zero_mul] at heps
  unfold cghs
  simp only [heps]
  exact solves_of_along (cghsStep_along hR hC) (residualSize_nonneg S true) hstart hiter

end Solvers

end ParFlow.Krylov
