import ParFlow.Lib.PeriodicIntervals
import ParFlow.Time.TimeCycleDefs

/-! The interval number of a time: the interval that holds the base time unit which ends at the discretized time. -/

namespace ParFlow

open PeriodicIntervals

/-! ## Rounding -/

section Rounding

variable {K : Type*} [Field K] [LinearOrder K] [IsStrictOrderedRing K] [FloorRing K] {x y : K}

theorem pfround_of_neg (hx : x < 0) : pfround x = ⌈x - 1 / 2⌉ := by
  have hneg : x - 1 / 2 < 0 := by linarith
  have hhalf : (0.5 : K) = 1 / 2 := by norm_num
  rw [pfround, if_pos hx, hhalf, toInt, if_pos hneg]

theorem pfround_of_nonneg (hx : 0 ≤ x) : pfround x = ⌊x + 1 / 2⌋ := by
  have hnonneg : 0 ≤ x + 1 / 2 := by linarith
  have hhalf : (0.5 : K) = 1 / 2 := by norm_num
  rw [pfround, if_neg (not_lt.mpr hx), hhalf, toInt, if_neg (not_lt.mpr hnonneg)]

theorem pfround_intCast (n : ℤ) : pfround (n : K) = n := by
  rcases lt_or_ge (n : K) 0 with hn | hn
  · rw [pfround_of_neg hn, Int.ceil_eq_iff]
    constructor <;> linarith
  · rw [pfround_of_nonneg hn, Int.floor_eq_iff]
    constructor <;> linarith

theorem pfround_bounds (x : K) : (pfround x : K) - 1 / 2 ≤ x ∧ x ≤ pfround x + 1 / 2 := by
  rcases lt_or_ge x 0 with hx | hx
  · rw [pfround_of_neg hx]
    have hle := Int.le_ceil (x - 1 / 2)
    have hlt := Int.ceil_lt_add_one (x - 1 / 2)
    constructor <;> linarith
  · rw [pfround_of_nonneg hx]
    have hle := Int.floor_le (x + 1 / 2)
    have hlt := Int.lt_floor_add_one (x + 1 / 2)
    constructor <;> linarith

theorem pfround_mono (hxy : x ≤ y) : pfround x ≤ pfround y := by
  rcases lt_or_ge x 0 with hx | hx
  · rcases lt_or_ge y 0 with hy | hy
    · rw [pfround_of_neg hx, pfround_of_neg hy]
      exact Int.ceil_mono (by linarith)
    · have hlow : pfround x ≤ 0 := by
        rw [pfround_of_neg hx, Int.ceil_le, Int.cast_zero]
        linarith
      have hhigh : 0 ≤ pfround y := by
        rw [pfround_of_nonneg hy, Int.le_floor, Int.cast_zero]
        linarith
      exact hlow.trans hhigh
  · rw [pfround_of_nonneg hx, pfround_of_nonneg (hx.trans hxy)]
    exact Int.floor_mono (by linarith)

/-- Numbers less than `n` apart are rounded to integers at most `n` apart. -/
theorem pfround_le_add {n : ℤ} (h : x < y + n) : pfround x ≤ pfround y + n := by
  have hx := (pfround_bounds x).1
  have hy := (pfround_bounds y).2
  have hlt : (pfround x : K) < (pfround y + n + 1 : ℤ) := by
    push_cast
    linarith
  have := Int.cast_lt.mp hlt
  omega

end Rounding

/-! ## Discretized times -/

theorem timeCycleSubdivisions_cast {K : Type*} [Ring K] : (timeCycleSubdivisions : K) = 1000 := by
  norm_num [timeCycleSubdivisions]

section Discretized

variable {K : Type*} [Field K] [LinearOrder K] [IsStrictOrderedRing K] [FloorRing K] (P : TimingInfo K) {t t' : K}

theorem TimingInfo.subdivision_pos (hunit : 0 < P.baseTimeUnit) : 0 < P.baseTimeUnit / (timeCycleSubdivisions : K) := by
  rw [timeCycleSubdivisions_cast]
  linarith

theorem TimingInfo.discretizedTime_mono (hunit : 0 < P.baseTimeUnit) (h : t ≤ t') :
    P.discretizedTime t ≤ P.discretizedTime t' := by
  apply Int.tdiv_le_tdiv (by decide)
  apply pfround_mono
  exact div_le_div_of_nonneg_right h (P.subdivision_pos hunit).le

/-- A number of thousandths of the base time unit loses what is not a whole unit. -/
theorem TimingInfo.discretizedTime_thousandths (hunit : 0 < P.baseTimeUnit) (q : ℤ) :
    P.discretizedTime (q * (P.baseTimeUnit / timeCycleSubdivisions)) = q.tdiv timeCycleSubdivisions := by
  unfold discretizedTime
  rw [mul_div_cancel_right₀ _ (P.subdivision_pos hunit).ne', pfround_intCast]

theorem TimingInfo.discretizedTime_units (hunit : 0 < P.baseTimeUnit) (s : ℤ) :
    P.discretizedTime (s * P.baseTimeUnit) = s := by
  have hpos := P.subdivision_pos hunit
  have hthousandths : (s : K) * P.baseTimeUnit = (s * timeCycleSubdivisions : ℤ) * (P.baseTimeUnit / timeCycleSubdivisions) := by
    rw [Int.cast_mul, timeCycleSubdivisions_cast]
    ring
  rw [hthousandths, P.discretizedTime_thousandths hunit, Int.mul_tdiv_cancel _ (by decide)]

theorem tdiv_eq_floor (a : ℤ) : a.tdiv 1000 = if 0 ≤ a then a / 1000 else -(-a / 1000) := by
  split_ifs with ha
  · exact Int.tdiv_eq_ediv_of_nonneg ha
  · rw [← Int.tdiv_eq_ediv_of_nonneg (by omega), Int.neg_tdiv, neg_neg]

/-- A time is rounded up by less than one base time unit. -/
theorem TimingInfo.discretizedTime_lt (hunit : 0 < P.baseTimeUnit) (t : K) :
    P.discretizedTime t * P.baseTimeUnit < t + P.baseTimeUnit := by
  have hbound := (pfround_bounds (t / (P.baseTimeUnit / timeCycleSubdivisions))).1
  have hround : ∀ r : ℤ, 1000 * r.tdiv 1000 ≤ r + 999 := by
    intro r
    rw [tdiv_eq_floor]
    split_ifs <;> omega
  have hcast : (1000 * P.discretizedTime t : K) ≤ pfround (t / (P.baseTimeUnit / timeCycleSubdivisions)) + 999 := by
    exact_mod_cast hround (pfround (t / (P.baseTimeUnit / timeCycleSubdivisions)))
  have hunits : t / (P.baseTimeUnit / timeCycleSubdivisions) = t / P.baseTimeUnit * 1000 := by
    have hunit' := hunit.ne'
    rw [timeCycleSubdivisions_cast]
    field_simp
  rw [hunits] at hbound hcast
  have hlt : (P.discretizedTime t : K) < t / P.baseTimeUnit + 1 := by linarith
  have hscaled := mul_lt_mul_of_pos_right hlt hunit
  rwa [add_mul, one_mul, div_mul_cancel₀ _ hunit.ne'] at hscaled

/-- Behind a time that is not negative there are times with the same discretized time. -/
theorem TimingInfo.exists_discretizedTime_eq (hunit : 0 < P.baseTimeUnit) (ht : 0 ≤ t) :
    ∃ t', t < t' ∧ P.discretizedTime t' = P.discretizedTime t := by
  have hpos := P.subdivision_pos hunit
  have hscaled : 0 ≤ t / (P.baseTimeUnit / timeCycleSubdivisions) := div_nonneg ht hpos.le
  obtain ⟨y, hlt, hle⟩ : ∃ y, t / (P.baseTimeUnit / timeCycleSubdivisions) < y ∧
      pfround y = pfround (t / (P.baseTimeUnit / timeCycleSubdivisions)) := by
    have hfloor := Int.lt_floor_add_one (t / (P.baseTimeUnit / timeCycleSubdivisions) + 1 / 2)
    have hlow := Int.floor_le (t / (P.baseTimeUnit / timeCycleSubdivisions) + 1 / 2)
    obtain ⟨y, hlt, hup⟩ := exists_between hfloor
    refine ⟨y - 1 / 2, by linarith, ?_⟩
    rw [pfround_of_nonneg hscaled, pfround_of_nonneg (by linarith), Int.floor_eq_iff, sub_add_cancel]
    exact ⟨hlow.trans hlt.le, hup⟩
  refine ⟨y * (P.baseTimeUnit / timeCycleSubdivisions), (div_lt_iff₀ hpos).mp hlt, ?_⟩
  unfold discretizedTime
  rw [mul_div_cancel_right₀ _ hpos.ne', hle]

/-- Less than `n` base time units after the start, at most `n` units have elapsed. -/
theorem TimingInfo.elapsed_le (hunit : 0 < P.baseTimeUnit) {n : ℤ} (hn : 0 ≤ n) (h : t < P.unitsAfterStart n) :
    P.elapsed t ≤ n := by
  have hpos := P.subdivision_pos hunit
  have hround : pfround (t / (P.baseTimeUnit / timeCycleSubdivisions)) ≤
      pfround (P.startTime / (P.baseTimeUnit / timeCycleSubdivisions)) + 1000 * n := by
    apply pfround_le_add
    have hsplit : P.startTime / (P.baseTimeUnit / timeCycleSubdivisions) + ((1000 * n : ℤ) : K) =
        P.unitsAfterStart n / (P.baseTimeUnit / timeCycleSubdivisions) := by
      have hunit' := hunit.ne'
      unfold unitsAfterStart
      rw [timeCycleSubdivisions_cast]
      push_cast
      field_simp
    rw [hsplit]
    exact div_lt_div_of_pos_right h hpos
  have hdiv := Int.tdiv_le_tdiv (c := 1000) (by decide) hround
  have hshift : ∀ b : ℤ, (b + 1000 * n).tdiv 1000 ≤ b.tdiv 1000 + n := by
    intro b
    rw [tdiv_eq_floor, tdiv_eq_floor]
    split_ifs <;> omega
  unfold elapsed discretizedTime
  have := hshift (pfround (P.startTime / (P.baseTimeUnit / timeCycleSubdivisions)))
  simp only [timeCycleSubdivisions] at *
  omega

end Discretized

/-! ## The loop over the intervals -/

/-- The cycle length is the sum of the positive interval lengths, as `BCPressurePackage` computes it. -/
structure TimeCycle.IsCycle (c : TimeCycle) : Prop where
  round : IsRound c.intervals
  length_eq : c.cycleLength = c.intervals.sum

theorem intervalLoop_eq {lens : List ℤ} {intervalsCompleted n total : ℤ}
    (hlt : intervalsCompleted - total < lens.sum) (hne : lens ≠ []) :
    intervalLoop intervalsCompleted lens n total = some (n + index lens (intervalsCompleted - total),
      total + bound lens (index lens (intervalsCompleted - total) + 1)) := by
  induction lens generalizing n total with
  | nil => exact absurd rfl hne
  | cons l ls ih =>
    unfold intervalLoop index
    rw [List.sum_cons] at hlt
    by_cases hl : intervalsCompleted - total < l
    · rw [if_neg (by omega), if_pos hl]
      simp [bound_cons]
    · have hls : ls ≠ [] := by
        rintro rfl
        rw [List.sum_nil] at hlt
        omega
      rw [if_pos (by omega), if_neg hl, ih (by omega) hls, bound_cons]
      simp only [Option.some.injEq, Prod.mk.injEq, ← sub_sub]
      push_cast
      constructor <;> ring

theorem index_of_nonpos {lens : List ℤ} (h : IsRound lens) {x : ℤ} (hx : x ≤ 0) : index lens x = 0 := by
  obtain ⟨hne, hpos⟩ := h
  cases lens with
  | nil => exact absurd rfl hne
  | cons l ls => exact if_pos (lt_of_le_of_lt hx (hpos l List.mem_cons_self))

/-- Before the start, the first interval. -/
theorem index_tmod {lens : List ℤ} (h : IsRound lens) (x : ℤ) :
    index lens (x.tmod lens.sum) = indexAt lens (max x 0) := by
  unfold indexAt
  rcases le_total x 0 with hx | hx
  · rw [max_eq_right hx, Int.zero_emod, index_of_nonpos h le_rfl]
    apply index_of_nonpos h
    have := Int.tmod_nonneg lens.sum (Int.neg_nonneg_of_nonpos hx)
    rw [Int.neg_tmod] at this
    omega
  · rw [max_eq_left hx, Int.tmod_eq_emod_of_nonneg hx]

section Number

variable {K : Type*} [Field K] [LinearOrder K] [FloorRing K] (P : TimingInfo K) {c : TimeCycle}

/-- The base time unit, counted from the start, that ends at the discretized time; the first one before the start. -/
def TimingInfo.currentUnit (time : K) : ℤ := max (P.elapsed time - 1) 0

theorem TimingInfo.loop_eq (hc : c.IsCycle) (time : K) : intervalLoop (P.intervalsCompleted time c) c.intervals 0 0 =
    some ((indexAt c.intervals (P.currentUnit time) : ℤ),
      bound c.intervals (indexAt c.intervals (P.currentUnit time) + 1)) := by
  have hpos := hc.round.sum_pos
  have hlt : P.intervalsCompleted time c - 0 < c.intervals.sum := by
    unfold intervalsCompleted
    rw [hc.length_eq, sub_zero]
    exact Int.tmod_lt_of_pos _ hpos
  rw [intervalLoop_eq hlt hc.round.ne_nil, sub_zero, zero_add, zero_add]
  unfold intervalsCompleted currentUnit
  rw [hc.length_eq, index_tmod hc.round]

theorem TimingInfo.intervalNumber_of_repeating (hc : c.IsCycle) {time : K}
    (h : c.repeatCount < 0 ∨ time < P.repeatsEnd c) :
    P.intervalNumber time c = some (indexAt c.intervals (P.currentUnit time) : ℤ) := by
  unfold intervalNumber
  rw [if_pos h, P.loop_eq hc]
  rfl

theorem TimingInfo.intervalNumber_of_over {time : K} (h : ¬ (c.repeatCount < 0 ∨ time < P.repeatsEnd c)) :
    P.intervalNumber time c = some (c.intervalDivision - 1) := if_neg h

end Number

/-! ## The interval of a time -/

section Lies

variable {K : Type*} [Field K] [LinearOrder K] [IsStrictOrderedRing K] [FloorRing K] (P : TimingInfo K) {c : TimeCycle}

/-- A number of base time units after the start belongs to interval `i` of some round; an interval has its end. -/
def TimeCycle.LiesIn (c : TimeCycle) (i : ℕ) (units : K) : Prop :=
  ∃ round : ℤ, ((round * c.cycleLength + bound c.intervals i : ℤ) : K) < units ∧
    units ≤ ((round * c.cycleLength + bound c.intervals (i + 1) : ℤ) : K)

theorem TimeCycle.IsCycle.liesIn_indexAt (hc : c.IsCycle) (d : ℤ) :
    c.LiesIn (indexAt c.intervals (d - 1)) (d : K) := by
  obtain ⟨-, hle, hlt⟩ := indexAt_spec hc.round (d - 1)
  refine ⟨(d - 1) / c.intervals.sum, ?_, ?_⟩
  · rw [Int.cast_lt, hc.length_eq]
    omega
  · rw [Int.cast_le, hc.length_eq]
    unfold endAt at hlt
    omega

end Lies

/-! ## Concrete cycles -/

def everyUnit : TimeCycle := ⟨[1, 1], -1, 2⟩

theorem everyUnit_isCycle : everyUnit.IsCycle := ⟨⟨by decide, by decide⟩, rfl⟩

def fromZero : TimingInfo ℚ := ⟨1, 0, 100⟩

end ParFlow
