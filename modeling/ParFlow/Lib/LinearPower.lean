import Mathlib

/-! Products of a linear function and a power, and functions that are given by cases on a sign. -/

namespace LinearPower

open Filter Topology

variable {a b r x : ℝ}

theorem hasDerivAt_linear (a b x : ℝ) : HasDerivAt (fun t => a + b * t) b x := by
  have h := ((hasDerivAt_id x).const_mul b).const_add a
  rwa [mul_one] at h

theorem hasDerivAt_linear_mul_rpow (hx : 0 < x) :
    HasDerivAt (fun t => (a + b * t) * t ^ r) (b * x ^ r + (a + b * x) * (r * x ^ (r - 1))) x :=
  (hasDerivAt_linear a b x).mul (Real.hasDerivAt_rpow_const (Or.inl hx.ne'))

/-- A power in terms of the next lower one. -/
theorem rpow_eq_mul_rpow_sub_one (hx : 0 < x) (r : ℝ) : x ^ r = x * x ^ (r - 1) := by
  rw [Real.rpow_sub_one hx.ne', mul_div_cancel₀ _ hx.ne']

theorem div_sqrt_eq_iff {a b m n : ℝ} (ha : 0 < a) (hb : 0 < b) (hm : 0 < m) (hn : 0 < n) :
    a / √m = b / √n ↔ a ^ 2 * n = b ^ 2 * m := by
  rw [div_eq_div_iff (Real.sqrt_pos.mpr hm).ne' (Real.sqrt_pos.mpr hn).ne',
    ← sq_eq_sq₀ (mul_pos ha (Real.sqrt_pos.mpr hn)).le (mul_pos hb (Real.sqrt_pos.mpr hm)).le, mul_pow, mul_pow,
    Real.sq_sqrt hm.le, Real.sq_sqrt hn.le]

section Sign

variable {f : ℝ → ℝ}

theorem eventually_neg (hf : ContinuousAt f x) (h : f x < 0) : ∀ᶠ t in 𝓝 x, f t < 0 :=
  hf.eventually_lt continuousAt_const h

theorem eventually_pos (hf : ContinuousAt f x) (h : 0 < f x) : ∀ᶠ t in 𝓝 x, 0 < f t :=
  continuousAt_const.eventually_lt hf h

end Sign

end LinearPower
