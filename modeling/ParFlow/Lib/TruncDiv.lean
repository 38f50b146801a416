import Mathlib.Data.Int.ModEq
import Mathlib.Algebra.Order.Ring.Int
import Mathlib.Tactic.Ring
import Mathlib.Tactic.Linarith

/-! Rounding up by `(t + (d - 1)) / d` with a division that truncates. The quotient is the ceiling
of `t / d`, and one more where a negative numerator leaves a remainder. -/

namespace TruncDiv

variable {t d q : ℤ}

/-- The numerator is negative and leaves a remainder. -/
def Overshoots (t d : ℤ) : Prop := t + (d - 1) < 0 ∧ ¬ d ∣ t + (d - 1)

instance (t d : ℤ) : Decidable (Overshoots t d) := inferInstanceAs (Decidable (_ ∧ _))

/-- The number whose quotient is rounded up in effect. -/
def moved (t d : ℤ) : ℤ := if Overshoots t d then t + d else t

theorem moved_of_not (h : ¬ Overshoots t d) : moved t d = t := if_neg h

theorem moved_of_overshoots (h : Overshoots t d) : moved t d = t + d := if_pos h

theorem le_moved (hd : 0 < d) : t ≤ moved t d := by
  unfold moved
  split_ifs
  · omega
  · exact le_rfl

theorem moved_le (hd : 0 < d) : moved t d ≤ t + d := by
  unfold moved
  split_ifs
  · exact le_rfl
  · omega

theorem moved_one (t : ℤ) : moved t 1 = t := by
  apply moved_of_not
  intro h
  exact h.2 (one_dvd _)

theorem not_overshoots_of_pos (ht : -d < t) : ¬ Overshoots t d := by
  intro h
  have := h.1
  omega

/-- The quotient rounded up. -/
def ceil (t d : ℤ) : ℤ := (t + (d - 1)) / d

theorem lt_ceil_iff (hd : 0 < d) : q < ceil t d ↔ q * d < t := by
  unfold ceil
  rw [← Int.add_one_le_iff, Int.le_ediv_iff_mul_le hd, add_mul, one_mul]
  constructor <;> intro h <;> linarith

theorem ceil_le_iff (hd : 0 < d) : ceil t d ≤ q ↔ t ≤ q * d := by
  rw [← not_lt, lt_ceil_iff hd, not_lt]

theorem tdiv_eq_ceil (hd : 0 < d) : (t + (d - 1)).tdiv d = ceil t d + if Overshoots t d then 1 else 0 := by
  have hiff : Overshoots t d ↔ ¬ (0 ≤ t + (d - 1) ∨ d ∣ t + (d - 1)) := by
    rw [not_or, not_le]
    rfl
  unfold ceil
  rw [Int.tdiv_eq_ediv, Int.sign_eq_one_of_pos hd]
  by_cases h : 0 ≤ t + (d - 1) ∨ d ∣ t + (d - 1)
  · rw [if_pos h, if_neg fun hover => hiff.mp hover h]
  · rw [if_neg h, if_pos (hiff.mpr h)]

theorem lt_tdiv_iff (hd : 0 < d) : q < (t + (d - 1)).tdiv d ↔ q * d < moved t d := by
  rw [tdiv_eq_ceil hd, moved]
  split_ifs
  · rw [← sub_lt_iff_lt_add, lt_ceil_iff hd, sub_mul, one_mul, sub_lt_iff_lt_add]
  · rw [add_zero, lt_ceil_iff hd]

theorem tdiv_le_iff (hd : 0 < d) : (t + (d - 1)).tdiv d ≤ q ↔ moved t d ≤ q * d := by
  rw [← not_lt, lt_tdiv_iff hd, not_lt]

/-! ## Classes of indices -/

/-- An index between two bounds in the class of `i` modulo `s`. -/
def HasIndex (s i l u : ℤ) : Prop := ∃ x, s ∣ x - i ∧ l ≤ x ∧ x < u

/-- The first index of a class from a bound on. -/
theorem exists_first (s i l : ℤ) (hs : 0 < s) : ∃ x, s ∣ x - i ∧ l ≤ x ∧ x < l + s := by
  refine ⟨l + (i - l) % s, ?_, ?_, ?_⟩
  · refine ⟨-((i - l) / s), ?_⟩
    rw [Int.emod_def]
    ring
  · have := Int.emod_nonneg (i - l) hs.ne'
    linarith
  · have := Int.emod_lt_of_pos (i - l) hs
    linarith

theorem hasIndex_first {s i l u : ℤ} (h : HasIndex s i l u) (hs : 0 < s) :
    ∃ x, s ∣ x - i ∧ l ≤ x ∧ x < u ∧ x < l + s := by
  obtain ⟨x, hx, hlx, hxl⟩ := exists_first s i l hs
  obtain ⟨y, hy, hly, hyu⟩ := h
  refine ⟨x, hx, hlx, ?_, hxl⟩
  by_contra hux
  have hdvd : s ∣ x - y := by
    have := Int.dvd_sub hx hy
    rwa [sub_sub_sub_cancel_right] at this
  have := Int.le_of_dvd (by omega) hdvd
  omega

end TruncDiv
