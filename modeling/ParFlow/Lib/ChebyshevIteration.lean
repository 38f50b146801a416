import Mathlib.LinearAlgebra.BilinearForm.Basic
import Mathlib.RingTheory.Polynomial.Dickson
import Mathlib.Algebra.Algebra.Bilinear
import Mathlib.Algebra.Order.Field.Basic
import Mathlib.Tactic.Linarith
import Mathlib.Tactic.LinearCombination

/-! The Chebyshev iteration over an ordered field: the errors are Dickson polynomials of the matrix, which are bounded on
the forms between `-2q` and `2q` without a spectral theorem. -/

open Polynomial

namespace ChebyshevIteration

section Polynomials

variable {R : Type*} [CommRing R] (a : R)

/-- The polynomials of the second kind keep a quadratic form. -/
theorem dickson_two_form (n : ℕ) :
    dickson 2 a (n + 1) ^ 2 - X * dickson 2 a (n + 1) * dickson 2 a n + C a * dickson 2 a n ^ 2 = C a ^ (n + 1) := by
  induction n with
  | zero =>
    rw [dickson_one, dickson_zero]
    norm_num
    ring
  | succ n ih =>
    rw [dickson_add_two]
    linear_combination C a * ih

theorem dickson_one_eq (n : ℕ) : dickson 1 a (n + 2) = dickson 2 a (n + 2) - C a * dickson 2 a n := by
  induction n using Nat.twoStepInduction with
  | zero =>
    simp only [dickson_add_two, dickson_zero]
    norm_num
    ring
  | one =>
    simp only [dickson_add_two, dickson_one, dickson_zero]
    norm_num
    ring
  | more n ih₀ ih₁ =>
    rw [dickson_add_two, ih₀, ih₁, dickson_add_two 2 a (n + 2), dickson_add_two 2 a n, dickson_add_two 2 a (n + 1)]
    ring

theorem dickson_pell (n : ℕ) :
    dickson 1 a (n + 1) ^ 2 + (C (4 * a) - X ^ 2) * dickson 2 a n ^ 2 = C (4 * a ^ (n + 1)) := by
  cases n with
  | zero =>
    rw [dickson_one, dickson_zero]
    norm_num
  | succ n =>
    have h := dickson_two_form a n
    have h4 : (C 4 : R[X]) = 4 := rfl
    rw [dickson_one_eq, dickson_add_two 2 a n, C_mul, C_mul, C_pow, h4]
    linear_combination 4 * C a * h

end Polynomials

section Values

variable {K : Type*} [Field K] [LinearOrder K] [IsStrictOrderedRing K] {a d : K}

/-- To the right of the interval the values grow as fast as the powers of `d / 2`. -/
theorem dickson_eval_grow (hd : 0 < d) (ha : 4 * a ≤ d ^ 2) (n : ℕ) :
    0 < (dickson 1 a n).eval d ∧ d / 2 * (dickson 1 a n).eval d ≤ (dickson 1 a (n + 1)).eval d := by
  induction n with
  | zero =>
    rw [dickson_zero, dickson_one, eval_X]
    norm_num
  | succ n ih =>
    obtain ⟨hpos, hgrow⟩ := ih
    have hpos' : 0 < (dickson 1 a (n + 1)).eval d := (mul_pos (half_pos hd) hpos).trans_le hgrow
    refine ⟨hpos', ?_⟩
    rw [dickson_add_two, eval_sub, eval_mul, eval_mul, eval_X, eval_C]
    have hprev : a * (dickson 1 a n).eval d ≤ d / 2 * (dickson 1 a (n + 1)).eval d :=
      calc a * (dickson 1 a n).eval d ≤ d / 2 * (d / 2) * (dickson 1 a n).eval d :=
            mul_le_mul_of_nonneg_right (by linarith) hpos.le
        _ = d / 2 * (d / 2 * (dickson 1 a n).eval d) := mul_assoc _ _ _
        _ ≤ d / 2 * (dickson 1 a (n + 1)).eval d := mul_le_mul_of_nonneg_left hgrow (half_pos hd).le
    linarith

theorem dickson_eval_ge (hd : 0 < d) (ha : 4 * a ≤ d ^ 2) (n : ℕ) : 2 * (d / 2) ^ n ≤ (dickson 1 a n).eval d := by
  induction n with
  | zero =>
    rw [dickson_zero, pow_zero]
    norm_num
  | succ n ih =>
    calc 2 * (d / 2) ^ (n + 1) = d / 2 * (2 * (d / 2) ^ n) := by ring
      _ ≤ d / 2 * (dickson 1 a n).eval d := mul_le_mul_of_nonneg_left ih (half_pos hd).le
      _ ≤ (dickson 1 a (n + 1)).eval d := (dickson_eval_grow hd ha n).2

end Values

section Forms

variable {K V : Type*} [Field K] [AddCommGroup V] [Module K V] {inner : LinearMap.BilinForm K V} {B : Module.End K V}

/-- The vectors of a recurrence with two terms. -/
theorem aeval_dickson {w : ℕ → V} {a : K} {e : V} (h₀ : w 0 = (2 : K) • e) (h₁ : w 1 = B e)
    (hnext : ∀ n, w (n + 2) = B (w (n + 1)) - a • w n) (n : ℕ) : w n = aeval B (dickson 1 a n) e := by
  induction n using Nat.twoStepInduction with
  | zero =>
    rw [h₀, dickson_zero, show (3 - ((1 : ℕ) : K[X])) = C 2 by rw [C_ofNat]; norm_num, aeval_C, Module.algebraMap_end_apply]
  | one => rw [h₁, dickson_one, aeval_X]
  | more n ih₀ ih₁ =>
    rw [hnext, ih₀, ih₁, dickson_add_two, map_sub, map_mul, map_mul, aeval_X, aeval_C, LinearMap.sub_apply,
      Module.End.mul_apply, Module.End.mul_apply, Module.algebraMap_end_apply]

theorem inner_aeval (hB : ∀ u v, inner (B u) v = inner u (B v)) (p : K[X]) (u v : V) :
    inner (aeval B p u) v = inner u (aeval B p v) := by
  induction p using Polynomial.induction_on generalizing u v with
  | C a => simp [Module.algebraMap_end_apply]
  | add p q hp hq => simp [map_add, hp, hq]
  | monomial n a ih =>
    have hleft : aeval B (C a * X ^ (n + 1)) u = aeval B (C a * X ^ n) (B u) := by
      rw [pow_succ, ← mul_assoc, map_mul, aeval_X, Module.End.mul_apply]
    have hright : aeval B (C a * X ^ (n + 1)) v = B (aeval B (C a * X ^ n) v) := by
      rw [pow_succ, ← mul_assoc, mul_comm, map_mul, aeval_X, Module.End.mul_apply]
    rw [hleft, ih, hB, hright]

variable [LinearOrder K] [IsStrictOrderedRing K]

/-- A symmetric map between two bounds does not lengthen a vector by more than the bound. -/
theorem inner_apply_le (hB : ∀ u v, inner (B u) v = inner u (B v)) {m : K} (hlo : ∀ u, -(m * inner u u) ≤ inner (B u) u)
    (hhi : ∀ u, inner (B u) u ≤ m * inner u u) (hm : 0 ≤ m) (u : V) : inner (B u) (B u) ≤ m ^ 2 * inner u u := by
  have h₁ : inner (B (B u)) u = inner (B u) (B u) := hB _ _
  have h₂ : inner (B u) u = inner u (B u) := hB _ _
  rcases hm.eq_or_lt with rfl | hm
  · -- the form of the map vanishes, also at `u + B u`
    have hzero : ∀ v, inner (B v) v = 0 := fun v => le_antisymm (by simpa using hhi v) (by simpa using hlo v)
    have hsum := hzero (u + B u)
    simp only [map_add, LinearMap.add_apply, h₁, hzero] at hsum
    linarith
  · have hplus := hhi (m • u + B u)
    have hminus := hlo (m • u - B u)
    simp only [map_add, map_sub, map_smul, LinearMap.add_apply, LinearMap.sub_apply, LinearMap.smul_apply, smul_eq_mul, h₁,
      h₂] at hplus hminus
    have hprod : 0 ≤ m * (m ^ 2 * inner u u - inner (B u) (B u)) := by linarith
    exact sub_nonneg.mp ((mul_nonneg_iff_of_pos_left hm).mp hprod)

/-- The polynomials are bounded on the maps that are. -/
theorem inner_dickson_le (hB : ∀ u v, inner (B u) v = inner u (B v)) {a : K}
    (ha : ∀ u, inner (B u) (B u) ≤ 4 * a * inner u u) (n : ℕ) (u : V) :
    inner (aeval B (dickson 1 a (n + 1)) u) (aeval B (dickson 1 a (n + 1)) u) ≤ 4 * a ^ (n + 1) * inner u u := by
  have hsq : ∀ p : K[X], inner (aeval B (p ^ 2) u) u = inner (aeval B p u) (aeval B p u) := by
    intro p
    rw [pow_two, map_mul, Module.End.mul_apply, inner_aeval hB]
  have hpell : dickson 1 a (n + 1) ^ 2 + C (4 * a) * dickson 2 a n ^ 2 = C (4 * a ^ (n + 1)) + (X * dickson 2 a n) ^ 2 := by
    linear_combination dickson_pell a n
  have hforms := congrArg (fun p => inner (aeval B p u) u) hpell
  simp only [map_add, LinearMap.add_apply] at hforms
  rw [map_mul, Module.End.mul_apply, aeval_C, aeval_C, Module.algebraMap_end_apply, Module.algebraMap_end_apply, map_smul,
    map_smul, LinearMap.smul_apply, LinearMap.smul_apply, hsq, hsq, hsq, map_mul, Module.End.mul_apply, aeval_X,
    smul_eq_mul, smul_eq_mul] at hforms
  linarith [ha (aeval B (dickson 2 a n) u)]

end Forms

end ChebyshevIteration
