import Mathlib.Algebra.Order.Floor.Ring
import Mathlib.Tactic.FieldSimp
import Mathlib.Tactic.Linarith
import Mathlib.Tactic.Ring
import ParFlow.Lib.Numerals

/-! Cubic Hermite interpolation on one cell, the slopes that keep it monotone, and functions put together of monotone pieces
over a uniform grid. -/

namespace HermiteSpline

open scoped Numerals

variable {K : Type*} [Field K]

/-- The cubic on the unit cell with values `y₀` and `y₁` and slopes `m₀` and `m₁` at its ends. -/
def hermite (y₀ y₁ m₀ m₁ t : K) : K :=
  (2 * t ^ 3 - 3 * t ^ 2 + 1) * y₀ + (t ^ 3 - 2 * t ^ 2 + t) * m₀ + (-2 * t ^ 3 + 3 * t ^ 2) * y₁ + (t ^ 3 - t ^ 2) * m₁

@[simp] theorem hermite_zero (y₀ y₁ m₀ m₁ : K) : hermite y₀ y₁ m₀ m₁ 0 = y₀ := by
  unfold hermite
  ring

@[simp] theorem hermite_one (y₀ y₁ m₀ m₁ : K) : hermite y₀ y₁ m₀ m₁ 1 = y₁ := by
  unfold hermite
  ring

/-- With slopes that are multiples of the rise, the cubic is a mean of four monotone ones. -/
theorem hermite_eq_mean (y₀ y₁ α β t : K) (h3 : (3 : K) ≠ 0) :
    hermite y₀ y₁ (α * (y₁ - y₀)) (β * (y₁ - y₀)) t = y₀ + (y₁ - y₀) *
      ((1 - α / 3) * (1 - β / 3) * (3 * t ^ 2 - 2 * t ^ 3) + α / 3 * (1 - β / 3) * (1 - (1 - t) ^ 3) +
        (1 - α / 3) * (β / 3) * t ^ 3 + α / 3 * (β / 3) * (4 * t ^ 3 - 6 * t ^ 2 + 3 * t)) := by
  unfold hermite
  field_simp
  ring

variable [LinearOrder K] [IsStrictOrderedRing K]

theorem smoothstep_mono {s t : K} (hs : 0 ≤ s) (hst : s ≤ t) (ht : t ≤ 1) :
    3 * s ^ 2 - 2 * s ^ 3 ≤ 3 * t ^ 2 - 2 * t ^ 3 := by
  have hfactor : (3 * t ^ 2 - 2 * t ^ 3) - (3 * s ^ 2 - 2 * s ^ 3) =
      (t - s) * (2 * t * (1 - t) + 2 * s * (1 - s) + (t * (1 - s) + s * (1 - t))) := by ring
  have hs1 : 0 ≤ 1 - s := by linarith
  have ht1 : 0 ≤ 1 - t := by linarith
  have ht0 : 0 ≤ t := hs.trans hst
  have hpos : 0 ≤ 2 * t * (1 - t) + 2 * s * (1 - s) + (t * (1 - s) + s * (1 - t)) := by positivity
  linarith [mul_nonneg (sub_nonneg.mpr hst) hpos]

theorem steep_mono {s t : K} (hst : s ≤ t) : 4 * s ^ 3 - 6 * s ^ 2 + 3 * s ≤ 4 * t ^ 3 - 6 * t ^ 2 + 3 * t := by
  have hfactor : (4 * t ^ 3 - 6 * t ^ 2 + 3 * t) - (4 * s ^ 3 - 6 * s ^ 2 + 3 * s) =
      (t - s) * ((t + s - 1) ^ 2 * 3 + (t - s) ^ 2) := by ring
  have hpos : 0 ≤ (t + s - 1) ^ 2 * 3 + (t - s) ^ 2 := by positivity
  linarith [mul_nonneg (sub_nonneg.mpr hst) hpos]

/-- A cubic whose slopes have the sign of the fall and at most three times its size falls. -/
theorem hermite_antitone {y₀ y₁ m₀ m₁ s t : K} (h₀ : 3 * (y₁ - y₀) ≤ m₀ ∧ m₀ ≤ 0) (h₁ : 3 * (y₁ - y₀) ≤ m₁ ∧ m₁ ≤ 0)
    (hs : 0 ≤ s) (hst : s ≤ t) (ht : t ≤ 1) : hermite y₀ y₁ m₀ m₁ t ≤ hermite y₀ y₁ m₀ m₁ s := by
  rcases (show y₁ - y₀ ≤ 0 by linarith).eq_or_lt with hzero | hneg
  · -- no fall and no slopes
    have hm₀ : m₀ = 0 := by linarith
    have hm₁ : m₁ = 0 := by linarith
    have hy : y₁ = y₀ := by linarith
    subst hm₀ hm₁ hy
    unfold hermite
    linarith
  have hunit : ∀ {m : K}, 3 * (y₁ - y₀) ≤ m ∧ m ≤ 0 → ∃ α, m = α * (y₁ - y₀) ∧ 0 ≤ α / 3 ∧ 0 ≤ 1 - α / 3 := by
    rintro m ⟨hlo, hhi⟩
    have hα : 0 ≤ m / (y₁ - y₀) := div_nonneg_of_nonpos hhi hneg.le
    have hα3 : m / (y₁ - y₀) ≤ 3 := (div_le_iff_of_neg hneg).mpr hlo
    exact ⟨m / (y₁ - y₀), (div_mul_cancel₀ m hneg.ne).symm, by linarith, by linarith⟩
  obtain ⟨α, rfl, hα, hα'⟩ := hunit h₀
  obtain ⟨β, rfl, hβ, hβ'⟩ := hunit h₁
  have hcube : s ^ 3 ≤ t ^ 3 := pow_le_pow_left₀ hs hst 3
  have hcube' : 1 - (1 - s) ^ 3 ≤ 1 - (1 - t) ^ 3 := by
    linarith [pow_le_pow_left₀ (sub_nonneg.mpr ht) (sub_le_sub_left hst 1) 3]
  rw [hermite_eq_mean _ _ _ _ _ three_ne_zero, hermite_eq_mean _ _ _ _ _ three_ne_zero, add_le_add_iff_left]
  refine mul_le_mul_of_nonpos_left ?_ hneg.le
  gcongr ?_ + ?_ + ?_ + ?_
  · exact mul_le_mul_of_nonneg_left (smoothstep_mono hs hst ht) (mul_nonneg hα' hβ')
  · exact mul_le_mul_of_nonneg_left hcube' (mul_nonneg hα hβ')
  · exact mul_le_mul_of_nonneg_left hcube (mul_nonneg hα' hβ)
  · exact mul_le_mul_of_nonneg_left (steep_mono hst) (mul_nonneg hα hβ)

/-! ## Pieces over a uniform grid -/

section Grid

variable [FloorRing K] {h : K} {g : ℤ → K → K} {y : ℤ → K}

/-- The position of a point in its cell, with the width of the cell as the unit. -/
theorem cell_position (hh : 0 < h) (x : K) : 0 ≤ (x - ⌊x / h⌋ * h) / h ∧ (x - ⌊x / h⌋ * h) / h ≤ 1 := by
  have hsub : (x - ⌊x / h⌋ * h) / h = Int.fract (x / h) := by
    rw [sub_div, mul_div_cancel_right₀ _ hh.ne']
    rfl
  rw [hsub]
  exact ⟨Int.fract_nonneg _, (Int.fract_lt_one _).le⟩

/-- Pieces that fall from one grid value to the next make up a function that falls. -/
theorem antitone_of_pieces (hh : 0 < h) {n : ℤ} (hpiece : ∀ i, 0 ≤ i → i < n → ∀ s t, 0 ≤ s → s ≤ t → t ≤ 1 → g i t ≤ g i s)
    (hlo : ∀ i, 0 ≤ i → i < n → g i 0 = y i) (hhi : ∀ i, 0 ≤ i → i < n → g i 1 = y (i + 1))
    {x x' : K} (hx : 0 ≤ x) (hxx : x ≤ x') (hx' : x' < n * h) :
    g ⌊x' / h⌋ ((x' - ⌊x' / h⌋ * h) / h) ≤ g ⌊x / h⌋ ((x - ⌊x / h⌋ * h) / h) := by
  have hcell : ∀ {x}, 0 ≤ x → x < n * h → 0 ≤ ⌊x / h⌋ ∧ ⌊x / h⌋ < n := fun h0 hn =>
    ⟨Int.floor_nonneg.mpr (div_nonneg h0 hh.le), Int.floor_lt.mpr ((div_lt_iff₀ hh).mpr hn)⟩
  obtain ⟨hi, hin⟩ := hcell hx (hxx.trans_lt hx')
  obtain ⟨hj, hjn⟩ := hcell (hx.trans hxx) hx'
  have hle : ⌊x / h⌋ ≤ ⌊x' / h⌋ := Int.floor_le_floor (div_le_div_of_nonneg_right hxx hh.le)
  have hp := cell_position hh x
  have hp' := cell_position hh x'
  rcases hle.eq_or_lt with heq | hlt
  · rw [← heq] at hp' ⊢
    refine hpiece _ hi hin _ _ hp.1 ?_ hp'.2
    exact div_le_div_of_nonneg_right (sub_le_sub_right hxx _) hh.le
  have hy : ∀ {i j : ℤ}, 0 ≤ i → i ≤ j → j ≤ n → y j ≤ y i := by
    intro i j hi hij hjn
    induction j, hij using Int.leInduction with
    | base => exact le_rfl
    | succ j hij ih =>
      have hstep := hpiece j (hi.trans hij) (by omega) 0 1 le_rfl zero_le_one le_rfl
      rw [hlo j (hi.trans hij) (by omega), hhi j (hi.trans hij) (by omega)] at hstep
      exact hstep.trans (ih (by omega))
  calc g ⌊x' / h⌋ _ ≤ g ⌊x' / h⌋ 0 := hpiece _ hj hjn _ _ le_rfl hp'.1 hp'.2
    _ = y ⌊x' / h⌋ := hlo _ hj hjn
    _ ≤ y (⌊x / h⌋ + 1) := hy (by omega) (by omega) hjn.le
    _ = g ⌊x / h⌋ 1 := (hhi _ hi hin).symm
    _ ≤ g ⌊x / h⌋ _ := hpiece _ hi hin _ _ hp.1 hp.2 le_rfl

end Grid

end HermiteSpline
