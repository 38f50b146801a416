import Mathlib.LinearAlgebra.BilinearForm.Orthogonal
import Mathlib.LinearAlgebra.Dimension.Finrank
import Mathlib.LinearAlgebra.FiniteDimensional.Defs
import Mathlib.Algebra.Order.Field.Basic
import Mathlib.Tactic.Linarith
import Mathlib.Tactic.Ring

/-! The method of conjugate gradients with a preconditioner, over an ordered field: conjugate directions, orthogonal
residuals, and a point that is nearest to the solution in the Krylov space. -/

namespace ConjugateGradient

variable {K V : Type*} [Field K] [LinearOrder K] [AddCommGroup V] [Module K V]

/-- An equation `A x = b` and a preconditioner `C`, both symmetric and positive definite for an inner product. -/
structure System (K V : Type*) [Field K] [LinearOrder K] [AddCommGroup V] [Module K V] where
  inner : LinearMap.BilinForm K V
  A : V →ₗ[K] V
  C : V →ₗ[K] V
  b : V
  inner_comm : ∀ u v, inner u v = inner v u
  inner_nonneg : ∀ u, 0 ≤ inner u u
  A_symm : ∀ u v, inner (A u) v = inner u (A v)
  A_pos : ∀ u, u ≠ 0 → 0 < inner (A u) u
  C_symm : ∀ u v, inner (C u) v = inner u (C v)
  C_pos : ∀ u, u ≠ 0 → 0 < inner u (C u)

/-- A point, its residual, a search direction and the square of the preconditioned residual. -/
structure State (K V : Type*) where
  x : V
  r : V
  p : V
  gamma : K

namespace System

section Recurrence

variable (S : System K V)

def start (x : V) : State K V := ⟨x, S.b - S.A x, S.C (S.b - S.A x), S.inner (S.b - S.A x) (S.C (S.b - S.A x))⟩

def alpha (s : State K V) : K := s.gamma / S.inner (S.A s.p) s.p

def nextR (s : State K V) : V := s.r - S.alpha s • S.A s.p

def step (s : State K V) : State K V where
  x := s.x + S.alpha s • s.p
  r := S.nextR s
  p := S.C (S.nextR s) + (S.inner (S.nextR s) (S.C (S.nextR s)) / s.gamma) • s.p
  gamma := S.inner (S.nextR s) (S.C (S.nextR s))

def run (x : V) : ℕ → State K V
  | 0 => S.start x
  | n + 1 => S.step (run x n)

/-- The directions searched in the first steps. -/
def searched (x : V) (n : ℕ) : Submodule K V := Submodule.span K ((fun i => (S.run x i).p) '' Set.Iio n)

/-- The energy of the error of `x`, for the solution `y`. -/
def energy (y x : V) : K := S.inner (S.A (y - x)) (y - x)

/-- The space that the preconditioned matrix makes of the first residual. -/
def krylov (x : V) (n : ℕ) : Submodule K V :=
  Submodule.span K ((fun i => ((S.C ∘ₗ S.A) ^ i) (S.C (S.b - S.A x))) '' Set.Iio n)

end Recurrence

variable {S : System K V} {x y : V} {n i : ℕ}

theorem residual (x : V) (n : ℕ) : (S.run x n).r = S.b - S.A (S.run x n).x := by
  induction n with
  | zero => rfl
  | succ n ih =>
    show (S.run x n).r - S.alpha (S.run x n) • S.A (S.run x n).p =
      S.b - S.A ((S.run x n).x + S.alpha (S.run x n) • (S.run x n).p)
    rw [ih, map_add, map_smul, sub_sub]

theorem gamma_eq (x : V) (n : ℕ) : (S.run x n).gamma = S.inner (S.run x n).r (S.C (S.run x n).r) := by
  cases n <;> rfl

theorem p_succ (x : V) (n : ℕ) : (S.run x (n + 1)).p =
    S.C (S.run x (n + 1)).r + ((S.run x (n + 1)).gamma / (S.run x n).gamma) • (S.run x n).p := rfl

theorem C_r_succ (x : V) (n : ℕ) : S.C (S.run x (n + 1)).r =
    (S.run x (n + 1)).p - ((S.run x (n + 1)).gamma / (S.run x n).gamma) • (S.run x n).p :=
  eq_sub_of_add_eq (p_succ x n).symm

/-- What the matrix makes of a direction is a difference of residuals. -/
theorem A_p (h : S.alpha (S.run x n) ≠ 0) :
    S.A (S.run x n).p = (S.alpha (S.run x n))⁻¹ • ((S.run x n).r - (S.run x (n + 1)).r) := by
  show _ = _ • ((S.run x n).r - ((S.run x n).r - S.alpha (S.run x n) • S.A (S.run x n).p))
  rw [sub_sub_cancel, smul_smul, inv_mul_cancel₀ h, one_smul]

theorem inner_r_C_r (h : ∀ i < n, S.inner (S.run x n).r (S.run x i).p = 0) (hi : i < n) :
    S.inner (S.run x n).r (S.C (S.run x i).r) = 0 := by
  cases i with
  | zero => exact h 0 hi
  | succ i => rw [C_r_succ, map_sub, map_smul, h _ hi, h i (by omega), smul_zero, sub_zero]

theorem searched_mono (x : V) : Monotone (S.searched x) := fun _ _ h =>
  Submodule.span_mono (Set.image_mono (Set.Iio_subset_Iio h))

theorem p_mem (hi : i < n) : (S.run x i).p ∈ S.searched x n := Submodule.subset_span ⟨i, hi, rfl⟩

theorem x_mem (x : V) (n : ℕ) : (S.run x n).x - x ∈ S.searched x n := by
  induction n with
  | zero =>
    rw [show (S.run x 0).x = x from rfl, sub_self]
    exact Submodule.zero_mem _
  | succ n ih =>
    have hnext : (S.run x (n + 1)).x - x = (S.run x n).x - x + S.alpha (S.run x n) • (S.run x n).p := by
      show (S.run x n).x + S.alpha (S.run x n) • (S.run x n).p - x = _
      abel
    rw [hnext]
    exact Submodule.add_mem _ (searched_mono x (Nat.le_succ n) ih)
      (Submodule.smul_mem _ _ (p_mem (Nat.lt_succ_self n)))

theorem C_r_mem (x : V) (n : ℕ) : S.C (S.run x n).r ∈ S.searched x (n + 1) := by
  cases n with
  | zero => exact p_mem Nat.zero_lt_one
  | succ n =>
    rw [C_r_succ]
    exact Submodule.sub_mem _ (p_mem (Nat.lt_succ_self _)) (Submodule.smul_mem _ _ (p_mem (by omega)))

/-- As long as steps are made, the directions searched span the Krylov space. -/
theorem krylov_le_searched (h : ∀ i < n, S.alpha (S.run x i) ≠ 0) : S.krylov x n ≤ S.searched x n := by
  have hstep : ∀ m < n, ∀ d ∈ S.searched x m, S.C (S.A d) ∈ S.searched x (m + 1) := by
    intro m hm d hd
    induction hd using Submodule.span_induction with
    | mem d hd =>
      obtain ⟨i, hi, rfl⟩ := hd
      show S.C (S.A (S.run x i).p) ∈ _
      rw [A_p (h i (lt_trans hi hm)), map_smul, map_sub]
      exact Submodule.smul_mem _ _ (Submodule.sub_mem _ (searched_mono x (Nat.succ_le_succ (le_of_lt hi)) (C_r_mem x i))
        (searched_mono x (Nat.succ_le_succ hi) (C_r_mem x (i + 1))))
    | zero => simp
    | add d e _ _ hd he =>
      rw [map_add, map_add]
      exact Submodule.add_mem _ hd he
    | smul a d _ hd =>
      rw [map_smul, map_smul]
      exact Submodule.smul_mem _ _ hd
  have hpow : ∀ m < n, ((S.C ∘ₗ S.A) ^ m) (S.C (S.b - S.A x)) ∈ S.searched x (m + 1) := by
    intro m hm
    induction m with
    | zero => exact p_mem Nat.zero_lt_one
    | succ m ih =>
      rw [pow_succ', Module.End.mul_apply]
      exact hstep (m + 1) hm _ (ih (by omega))
  refine Submodule.span_le.mpr ?_
  rintro _ ⟨m, hm, rfl⟩
  exact searched_mono x hm (hpow m hm)

theorem krylov_mono (x : V) : Monotone (S.krylov x) := fun _ _ h =>
  Submodule.span_mono (Set.image_mono (Set.Iio_subset_Iio h))

theorem krylov_next {d : V} (hd : d ∈ S.krylov x n) : S.C (S.A d) ∈ S.krylov x (n + 1) := by
  induction hd using Submodule.span_induction with
  | mem d hd =>
    obtain ⟨i, hi, rfl⟩ := hd
    refine Submodule.subset_span ⟨i + 1, Nat.succ_lt_succ hi, ?_⟩
    show ((S.C ∘ₗ S.A) ^ (i + 1)) _ = _
    rw [pow_succ', Module.End.mul_apply]
    rfl
  | zero => simp
  | add d e _ _ hd he =>
    rw [map_add, map_add]
    exact Submodule.add_mem _ hd he
  | smul a d _ hd =>
    rw [map_smul, map_smul]
    exact Submodule.smul_mem _ _ hd

/-- The directions, and what the preconditioner makes of the residuals, lie in the Krylov space. -/
theorem p_mem_krylov (x : V) (n : ℕ) :
    (S.run x n).p ∈ S.krylov x (n + 1) ∧ S.C (S.run x n).r ∈ S.krylov x (n + 1) := by
  induction n with
  | zero => exact ⟨Submodule.subset_span ⟨0, Nat.zero_lt_one, rfl⟩, Submodule.subset_span ⟨0, Nat.zero_lt_one, rfl⟩⟩
  | succ n ih =>
    have hr : S.C (S.run x (n + 1)).r ∈ S.krylov x (n + 2) := by
      show S.C ((S.run x n).r - S.alpha (S.run x n) • S.A (S.run x n).p) ∈ _
      rw [map_sub, map_smul]
      exact Submodule.sub_mem _ (krylov_mono x (Nat.le_succ _) ih.2) (Submodule.smul_mem _ _ (krylov_next ih.1))
    refine ⟨?_, hr⟩
    show S.C (S.run x (n + 1)).r + _ • (S.run x n).p ∈ _
    exact Submodule.add_mem _ hr (Submodule.smul_mem _ _ (krylov_mono x (Nat.le_succ _) ih.1))

theorem x_mem_krylov (x : V) (n : ℕ) : (S.run x n).x - x ∈ S.krylov x n := by
  have hle : S.searched x n ≤ S.krylov x n := by
    refine Submodule.span_le.mpr ?_
    rintro _ ⟨i, hi, rfl⟩
    exact krylov_mono x hi (p_mem_krylov x i).1
  exact hle (x_mem x n)

theorem energy_add (hy : S.A y = S.b) (x d : V) :
    S.energy y (x + d) = S.energy y x - 2 * S.inner (S.b - S.A x) d + S.inner (S.A d) d := by
  have he : S.A (y - x) = S.b - S.A x := by rw [map_sub, hy]
  have hcross : S.inner (S.A d) (y - x) = S.inner (S.b - S.A x) d := by rw [S.A_symm, S.inner_comm, he]
  unfold energy
  rw [← sub_sub]
  generalize y - x = e at he hcross
  have hexpand : S.inner (S.A (e - d)) (e - d) =
      S.inner (S.A e) e - S.inner (S.A d) e - (S.inner (S.A e) d - S.inner (S.A d) d) := by
    rw [map_sub S.A, map_sub (S.inner (S.A e - S.A d)), map_sub S.inner, LinearMap.sub_apply, LinearMap.sub_apply]
  rw [hexpand, hcross, he]
  ring

/-! ## Conjugate directions -/

/-- The residual is orthogonal to all former directions, and the direction conjugate to them. -/
structure Conjugate (S : System K V) (x : V) (n : ℕ) : Prop where
  orthogonal : ∀ i < n, S.inner (S.run x n).r (S.run x i).p = 0
  conjugate : ∀ i < n, S.inner (S.A (S.run x n).p) (S.run x i).p = 0

theorem Conjugate.inner_r_p (h : Conjugate S x n) : S.inner (S.run x n).r (S.run x n).p = (S.run x n).gamma := by
  cases n with
  | zero => rfl
  | succ n =>
    have hC := congrArg (S.inner (S.run x (n + 1)).r) (C_r_succ (S := S) x n)
    rw [map_sub, map_smul, h.orthogonal n (Nat.lt_succ_self n), smul_zero, sub_zero] at hC
    rw [← hC, gamma_eq]

theorem Conjugate.delta_pos (h : Conjugate S x n) (hg : (S.run x n).gamma ≠ 0) :
    0 < S.inner (S.A (S.run x n).p) (S.run x n).p := by
  refine S.A_pos _ fun hp => hg ?_
  rw [← h.inner_r_p, hp, map_zero]

theorem Conjugate.alpha_mul (h : Conjugate S x n) (hg : (S.run x n).gamma ≠ 0) :
    S.alpha (S.run x n) * S.inner (S.A (S.run x n).p) (S.run x n).p = (S.run x n).gamma :=
  div_mul_cancel₀ _ (h.delta_pos hg).ne'

theorem inner_C_nonneg (S : System K V) (r : V) : 0 ≤ S.inner r (S.C r) := by
  by_cases hr : r = 0
  · simp [hr]
  · exact (S.C_pos _ hr).le

theorem gamma_nonneg (x : V) (n : ℕ) : 0 ≤ (S.run x n).gamma := by
  rw [gamma_eq]
  exact S.inner_C_nonneg _

theorem gamma_eq_zero_iff : (S.run x n).gamma = 0 ↔ (S.run x n).r = 0 := by
  rw [gamma_eq]
  refine ⟨fun h => ?_, fun h => by simp [h]⟩
  by_contra hr
  exact (S.C_pos _ hr).ne' h

theorem solves_of_gamma (h : (S.run x n).gamma = 0) : S.A (S.run x n).x = S.b := by
  have hr := residual (S := S) x n
  rw [gamma_eq_zero_iff.mp h] at hr
  exact (sub_eq_zero.mp hr.symm).symm

theorem Conjugate.orthogonal_step (h : Conjugate S x n) (hg : (S.run x n).gamma ≠ 0) (hi : i < n + 1) :
    S.inner (S.run x (n + 1)).r (S.run x i).p = 0 := by
  show S.inner ((S.run x n).r - S.alpha (S.run x n) • S.A (S.run x n).p) (S.run x i).p = 0
  rw [map_sub, map_smul, LinearMap.sub_apply, LinearMap.smul_apply, smul_eq_mul]
  rcases Nat.lt_succ_iff_lt_or_eq.mp hi with hlt | rfl
  · rw [h.orthogonal i hlt, h.conjugate i hlt, mul_zero, sub_zero]
  · rw [h.inner_r_p, h.alpha_mul hg, sub_self]

section Order

variable [IsStrictOrderedRing K]

theorem Conjugate.alpha_pos (h : Conjugate S x n) (hg : 0 < (S.run x n).gamma) : 0 < S.alpha (S.run x n) :=
  div_pos hg (h.delta_pos hg.ne')

/-- The directions stay conjugate as long as no residual vanishes. -/
theorem conjugate (x : V) (n : ℕ) (h : ∀ i < n, 0 < (S.run x i).gamma) : Conjugate S x n := by
  induction n using Nat.strong_induction_on with
  | h n ih =>
    cases n with
    | zero => exact ⟨fun i hi => absurd hi (Nat.not_lt_zero i), fun i hi => absurd hi (Nat.not_lt_zero i)⟩
    | succ n =>
      have hprev := fun m (hm : m < n + 1) => ih m hm fun i hi => h i (hi.trans hm)
      have hn := hprev n (Nat.lt_succ_self n)
      have horth := fun i (hi : i < n + 1) => hn.orthogonal_step (h n (Nat.lt_succ_self n)).ne' hi
      refine ⟨horth, fun i hi => ?_⟩
      have hA : S.inner (S.A (S.C (S.run x (n + 1)).r)) (S.run x i).p = (S.alpha (S.run x i))⁻¹ *
          (S.inner (S.run x (n + 1)).r (S.C (S.run x i).r) - S.inner (S.run x (n + 1)).r (S.C (S.run x (i + 1)).r)) := by
        rw [S.A_symm, A_p ((hprev i hi).alpha_pos (h i hi)).ne', map_smul, map_sub, S.C_symm, S.C_symm, smul_eq_mul]
      have hp : S.inner (S.A (S.run x (n + 1)).p) (S.run x i).p = S.inner (S.A (S.C (S.run x (n + 1)).r)) (S.run x i).p +
          (S.run x (n + 1)).gamma / (S.run x n).gamma * S.inner (S.A (S.run x n).p) (S.run x i).p := by
        show S.inner (S.A (S.C (S.run x (n + 1)).r + ((S.run x (n + 1)).gamma / (S.run x n).gamma) • (S.run x n).p)) _ = _
        rw [map_add, map_smul, map_add, map_smul, LinearMap.add_apply, LinearMap.smul_apply, smul_eq_mul]
      rw [hp, hA, inner_r_C_r horth hi]
      rcases Nat.lt_succ_iff_lt_or_eq.mp hi with hlt | rfl
      · rw [inner_r_C_r horth (i := i + 1) (by omega), hn.conjugate i hlt]
        ring
      · -- the new coefficient is the one that makes the last two directions conjugate
        rw [← gamma_eq, alpha, inv_div]
        ring

/-! ## The error -/

theorem krylov_le (h : ∀ i < n, 0 < (S.run x i).gamma) : S.krylov x n ≤ S.searched x n :=
  krylov_le_searched fun i hi => ((conjugate x i fun j hj => h j (hj.trans hi)).alpha_pos (h i hi)).ne'

/-- In the Krylov space no point is nearer to the solution. -/
theorem energy_le (hy : S.A y = S.b) (h : ∀ i < n, 0 < (S.run x i).gamma) {d : V} (hd : d ∈ S.krylov x n) :
    S.energy y (S.run x n).x ≤ S.energy y (x + d) := by
  have hrest : x + d - (S.run x n).x ∈ S.searched x n := by
    rw [show x + d - (S.run x n).x = d - ((S.run x n).x - x) by abel]
    exact Submodule.sub_mem _ (krylov_le h hd) (x_mem x n)
  have hzero : S.inner (S.run x n).r (x + d - (S.run x n).x) = 0 := by
    generalize x + d - (S.run x n).x = e at hrest
    induction hrest using Submodule.span_induction with
    | mem e he =>
      obtain ⟨i, hi, rfl⟩ := he
      exact (conjugate x n h).orthogonal i hi
    | zero => exact map_zero _
    | add e f _ _ he hf => rw [map_add, he, hf, add_zero]
    | smul a e _ he => rw [map_smul, he, smul_zero]
  have hnonneg : ∀ e, 0 ≤ S.inner (S.A e) e := fun e => by
    by_cases he : e = 0
    · simp [he]
    · exact (S.A_pos e he).le
  have hadd := energy_add hy (S.run x n).x (x + d - (S.run x n).x)
  rw [add_sub_cancel, ← residual, hzero, mul_zero, sub_zero] at hadd
  rw [hadd]
  exact le_add_of_nonneg_right (hnonneg _)

/-- The error falls with every step. -/
theorem energy_lt (hy : S.A y = S.b) (h : ∀ i < n + 1, 0 < (S.run x i).gamma) :
    S.energy y (S.run x (n + 1)).x < S.energy y (S.run x n).x := by
  have hconj := conjugate x n fun i hi => h i (hi.trans (Nat.lt_succ_self n))
  have hg := h n (Nat.lt_succ_self n)
  have hpos := mul_pos (hconj.alpha_pos hg) hg
  show S.energy y ((S.run x n).x + S.alpha (S.run x n) • (S.run x n).p) < _
  rw [energy_add hy, ← residual, map_smul, map_smul, map_smul, map_smul, LinearMap.smul_apply, hconj.inner_r_p, smul_eq_mul,
    smul_eq_mul, smul_eq_mul, hconj.alpha_mul hg.ne']
  linarith

/-! ## The end -/

/-- A space has no more conjugate directions than dimensions. -/
theorem exists_gamma_eq_zero [FiniteDimensional K V] (x : V) : ∃ n ≤ Module.finrank K V, (S.run x n).gamma = 0 := by
  by_contra hno
  push Not at hno
  have hpos : ∀ n ≤ Module.finrank K V, 0 < (S.run x n).gamma := fun n hn => (gamma_nonneg x n).lt_of_ne' (hno n hn)
  have hconj : ∀ n ≤ Module.finrank K V, Conjugate S x n := fun n hn => conjugate x n fun i hi => hpos i (hi.le.trans hn)
  let B : LinearMap.BilinForm K V := S.inner.compLeft S.A
  have hind : LinearIndependent K fun i : Fin (Module.finrank K V + 1) => (S.run x i).p := by
    refine LinearMap.BilinForm.linearIndependent_of_iIsOrtho (B := B) ?_ fun i => ?_
    · rw [LinearMap.BilinForm.iIsOrtho_def]
      intro i j hij
      show S.inner (S.A (S.run x i).p) (S.run x j).p = 0
      rcases lt_or_gt_of_ne (fun heq => hij (Fin.ext heq) : (i : ℕ) ≠ j) with hlt | hlt
      · rw [S.A_symm, S.inner_comm]
        exact (hconj j (Nat.lt_succ_iff.mp j.isLt)).conjugate i hlt
      · exact (hconj i (Nat.lt_succ_iff.mp i.isLt)).conjugate j hlt
    · exact ((hconj i (Nat.lt_succ_iff.mp i.isLt)).delta_pos (hno i (Nat.lt_succ_iff.mp i.isLt))).ne'
  have hcard := hind.fintype_card_le_finrank
  rw [Fintype.card_fin] at hcard
  omega

end Order

end System

end ConjugateGradient
