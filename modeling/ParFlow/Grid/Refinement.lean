import Mathlib.Algebra.Order.Field.Rat
import Mathlib.Data.Rat.Cast.Order
import ParFlow.Lib.TruncDiv
import ParFlow.Grid.SubgridCells

/-! The points of subgrids of different resolutions. Index `i` of an index space is index `i * 2 ^ d` of
one that is finer by `d`. -/

namespace ParFlow

open Subregion TruncDiv

/-- Where the cell of an index space with the resolutions `r` lies in the index space of resolution zero. -/
def position (r : Axis → ℤ) (c : Cell) (a : Axis) : ℚ := a.coord c * 2 ^ (-r a)

namespace Subregion

/-- The points of a subgrid. -/
def positions (s : Subgrid) : Set (Axis → ℚ) := {p | ∃ c ∈ s.cells, position s.res c = p}

/-- The second subgrid is at the same or at a finer resolution. -/
def Finer (s t : Subgrid) : Prop := ∀ a, s.res a ≤ t.res a

/-- How many indices of the second subgrid lie between two of the first. -/
def refinement (r : Axis → ℤ) (t : Subgrid) (a : Axis) : ℤ := 2 ^ (t.res a - r a).toNat

end Subregion

variable {s t : Subgrid} {r : Axis → ℤ} {a : Axis} {c c' : Cell}

theorem refinement_pos (r : Axis → ℤ) (t : Subgrid) (a : Axis) : 0 < refinement r t a := pow_pos two_pos _

/-- A coarse cell is the fine cell with its indices multiplied. -/
theorem position_eq_iff (h : ∀ a, r a ≤ t.res a) :
    position t.res c' = position r c ↔ ∀ a : Axis, a.coord c' = a.coord c * refinement r t a := by
  rw [funext_iff]
  refine forall_congr' fun a => ?_
  have hpow : (2 : ℚ) ^ (-r a) = ((refinement r t a : ℤ) : ℚ) * 2 ^ (-t.res a) := by
    have hexp : -r a = ((t.res a - r a).toNat : ℤ) + -t.res a := by
      have := h a
      omega
    rw [hexp, zpow_add₀ two_ne_zero, zpow_natCast, refinement]
    push_cast
    rfl
  have hne : (2 : ℚ) ^ (-t.res a) ≠ 0 := zpow_ne_zero _ two_ne_zero
  unfold position
  rw [hpow, ← mul_assoc, mul_left_inj' hne]
  exact_mod_cast Iff.rfl

/-- A coarse cell is a point of the fine subgrid when its multiplied indices lie in it. -/
theorem position_mem_iff (h : ∀ a, r a ≤ t.res a) : position r c ∈ t.positions ↔
    ∀ a : Axis, t.lo a ≤ a.coord c * refinement r t a ∧ a.coord c * refinement r t a < t.lo a + t.num a := by
  constructor
  · rintro ⟨c', hc', heq⟩ a
    rw [← (position_eq_iff h).mp heq a]
    exact mem_cells_axis.mp hc' a
  · intro hin
    refine ⟨Axis.cell fun a => a.coord c * refinement r t a, ?_, ?_⟩
    · rw [mem_cells_axis]
      intro a
      rw [Axis.coord_cell]
      exact hin a
    · rw [position_eq_iff h]
      exact fun a => Axis.coord_cell _ a

/-! ## Rounded bounds -/

/-- A bound of the fine subgrid overshoots only outside the coarse one. -/
def AxisRounds (s t : Subgrid) (a : Axis) : Prop :=
  (Overshoots (t.lo a) (refinement s.res t a) → t.lo a + refinement s.res t a ≤ s.lo a * refinement s.res t a) ∧
    (Overshoots (t.lo a + t.num a) (refinement s.res t a) →
      (s.lo a + s.num a - 1) * refinement s.res t a < t.lo a + t.num a)

theorem intPow2_eq_refinement (h : r a ≤ t.res a) : intPow2 (t.res a - r a) = refinement r t a :=
  if_pos (sub_nonneg.mpr h)

theorem ceilQuot_one (x : ℤ) : ceilQuot x 1 = x := by
  unfold ceilQuot
  rw [sub_self, add_zero, Int.tdiv_one]

theorem refinement_self (h : t.res a = r a) : refinement r t a = 1 := by
  unfold refinement
  rw [h, sub_self]
  rfl

theorem cutPoints_eq (h : s.res a ≤ t.res a) : cutPoints s t a =
    (ceilQuot (t.lo a) (refinement s.res t a), ceilQuot (t.lo a + t.num a) (refinement s.res t a)) := by
  unfold cutPoints
  split_ifs with hd
  · dsimp only
    rw [intPow2_eq_refinement h]
  · rw [refinement_self (sub_eq_zero.mp (not_not.mp hd)), ceilQuot_one, ceilQuot_one]

theorem extractAxis_eq (h : r a ≤ t.res a) : extractAxis (r a) t a =
    (ceilQuot (t.lo a) (refinement r t a),
      ceilQuot (t.lo a + t.num a) (refinement r t a) - ceilQuot (t.lo a) (refinement r t a)) := by
  unfold extractAxis
  split_ifs with hd
  · dsimp only
    rw [intPow2_eq_refinement h]
  · rw [refinement_self (by omega), ceilQuot_one, ceilQuot_one, add_sub_cancel_left]

/-- Where no bound overshoots inside the coarse subgrid, the rounded bounds enclose the same indices. -/
theorem AxisRounds.mem_iff (h : AxisRounds s t a) {x : ℤ} (hl : s.lo a ≤ x) (hu : x < s.lo a + s.num a) :
    ceilQuot (t.lo a) (refinement s.res t a) ≤ x ∧ x < ceilQuot (t.lo a + t.num a) (refinement s.res t a) ↔
      t.lo a ≤ x * refinement s.res t a ∧ x * refinement s.res t a < t.lo a + t.num a := by
  have hd := refinement_pos s.res t a
  obtain ⟨hlower, hupper⟩ := h
  unfold ceilQuot
  rw [tdiv_le_iff hd, lt_tdiv_iff hd]
  have hxl := mul_le_mul_of_nonneg_right hl hd.le
  have hxu := mul_le_mul_of_nonneg_right (Int.le_sub_one_of_lt hu) hd.le
  unfold moved
  constructor
  · rintro ⟨h₁, h₂⟩
    constructor
    · exact (le_moved hd).trans h₁
    · split_ifs at h₂ with hover
      · exact hxu.trans_lt (hupper hover)
      · exact h₂
  · rintro ⟨h₁, h₂⟩
    constructor
    · split_ifs with hover
      · exact (hlower hover).trans hxl
      · exact h₁
    · exact h₂.trans_le (le_moved hd)

end ParFlow

/-! `ExtractSubgrid` and `IntersectSubgrids` for subgrids of different resolutions. Both assume that one
resolution is finer than or equal to the other along all three axes. -/

namespace ParFlow

open Subregion TruncDiv

/-- The points of the subgrid that are points of the coarser index space. -/
def ExtractsExactly (r : Axis → ℤ) (s : Subgrid) : Prop :=
  let u := extractSubgrid (r .x) (r .y) (r .z) s
  (∀ a, u.res a = r a) ∧ ∀ c, c ∈ u.cells ↔ position r c ∈ s.positions

/-- The points that lie in both subgrids. -/
def IntersectsExactly (s₁ s₂ : Subgrid) : Prop :=
  (∀ u, intersectSubgrids s₁ s₂ = some u → u.positions = s₁.positions ∩ s₂.positions) ∧
    (intersectSubgrids s₁ s₂ = none ↔ s₁.positions ∩ s₂.positions = ∅)

/-- Neither bound of the subgrid overshoots. -/
def RoundsUp (r : Axis → ℤ) (s : Subgrid) : Prop :=
  ∀ a, ¬ Overshoots (s.lo a) (refinement r s a) ∧ ¬ Overshoots (s.lo a + s.num a) (refinement r s a)

/-- One of the subgrids is at the same or a finer resolution, and its bounds overshoot only outside the other. -/
def RoundsInto (s₁ s₂ : Subgrid) : Prop :=
  (s₁.Finer s₂ ∧ ∀ a, AxisRounds s₁ s₂ a) ∨ (s₂.Finer s₁ ∧ ∀ a, AxisRounds s₂ s₁ a)

section Extract

variable {r : Axis → ℤ} {s t : Subgrid} {c : Cell}

theorem extractSubgrid_axis (r : Axis → ℤ) (s : Subgrid) (a : Axis) :
    (extractSubgrid (r .x) (r .y) (r .z) s).lo a = (extractAxis (r a) s a).1 ∧
      (extractSubgrid (r .x) (r .y) (r .z) s).num a = (extractAxis (r a) s a).2 ∧
      (extractSubgrid (r .x) (r .y) (r .z) s).res a = r a := by
  cases a <;> exact ⟨rfl, rfl, rfl⟩

theorem mem_extractSubgrid (h : ∀ a, r a ≤ s.res a) : c ∈ (extractSubgrid (r .x) (r .y) (r .z) s).cells ↔
    ∀ a : Axis, ceilQuot (s.lo a) (refinement r s a) ≤ a.coord c ∧
      a.coord c < ceilQuot (s.lo a + s.num a) (refinement r s a) := by
  rw [mem_cells_axis]
  refine forall_congr' fun a => ?_
  obtain ⟨hlo, hnum, -⟩ := extractSubgrid_axis r s a
  rw [hlo, hnum, extractAxis_eq (h a), add_sub_cancel]

theorem extractSubgrid_exact (h : ∀ a, r a ≤ s.res a) (hr : RoundsUp r s) : ExtractsExactly r s := by
  refine ⟨fun a => (extractSubgrid_axis r s a).2.2, fun c => ?_⟩
  rw [mem_extractSubgrid h, position_mem_iff h]
  refine forall_congr' fun a => ?_
  have hd := refinement_pos r s a
  rw [ceilQuot, ceilQuot, tdiv_le_iff hd, lt_tdiv_iff hd, moved_of_not (hr a).1, moved_of_not (hr a).2]

/-- The bounds of a finer subgrid, moved into the index space of a coarser one. -/
theorem mem_extractSubgrid_of_rounds (h : s.Finer t) (hr : ∀ a, AxisRounds s t a) (hc : c ∈ s.cells) :
    c ∈ (extractSubgrid s.rx s.ry s.rz t).cells ↔ position s.res c ∈ t.positions := by
  show c ∈ (extractSubgrid (s.res .x) (s.res .y) (s.res .z) t).cells ↔ _
  rw [mem_extractSubgrid h, position_mem_iff h]
  refine forall_congr' fun a => ?_
  have ha := mem_cells_axis.mp hc a
  exact (hr a).mem_iff ha.1 ha.2

end Extract

section Intersect

variable {s t u : Subgrid}

theorem positions_eq (h : s.Finer t) (hr : ∀ a, AxisRounds s t a)
    (hu : u.cells = (extractSubgrid s.rx s.ry s.rz t).cells ∩ s.cells) (hres : ∀ a, u.res a = s.res a) :
    u.positions = s.positions ∩ t.positions := by
  ext p
  constructor
  · rintro ⟨c, hc, rfl⟩
    rw [hu, Finset.mem_inter] at hc
    rw [funext hres]
    exact ⟨⟨c, hc.2, rfl⟩, (mem_extractSubgrid_of_rounds h hr hc.2).mp hc.1⟩
  · rintro ⟨⟨c, hc, rfl⟩, hpos⟩
    refine ⟨c, ?_, by rw [funext hres]⟩
    rw [hu, Finset.mem_inter]
    exact ⟨(mem_extractSubgrid_of_rounds h hr hc).mpr hpos, hc⟩

/-- The coarser subgrid bounds the finer one in its own index space. -/
theorem intersectAxes_exact (h : s.Finer t) (hr : ∀ a, AxisRounds s t a) :
    (∀ u, intersectAxes s (extractSubgrid s.rx s.ry s.rz t) = some u →
      u.positions = s.positions ∩ t.positions) ∧
      (intersectAxes s (extractSubgrid s.rx s.ry s.rz t) = none ↔ s.positions ∩ t.positions = ∅) := by
  have hsome : ∀ u, intersectAxes s (extractSubgrid s.rx s.ry s.rz t) = some u →
      u.positions = s.positions ∩ t.positions := by
    intro u hu
    obtain ⟨hcells, hres, -, -⟩ := intersectAxes_eq_some hu
    refine positions_eq h hr hcells fun a => ?_
    rw [sameRes_axis.mp hres a]
    exact (extractSubgrid_axis s.res t a).2.2
  refine ⟨hsome, fun hnone => ?_, fun hempty => ?_⟩
  · rw [Set.eq_empty_iff_forall_notMem]
    rintro p ⟨⟨c, hc, rfl⟩, hpos⟩
    have hdisj := Finset.disjoint_left.mp (intersectAxes_eq_none hnone)
    exact hdisj ((mem_extractSubgrid_of_rounds h hr hc).mpr hpos) hc
  · rw [Option.eq_none_iff_forall_ne_some]
    intro u hu
    obtain ⟨c, hc⟩ := (intersectAxes_eq_some hu).2.2.2.cells_nonempty
    have hmem : position u.res c ∈ u.positions := ⟨c, hc, rfl⟩
    rw [hsome u hu, hempty] at hmem
    exact hmem

theorem Subregion.Finer.level_le (h : s.Finer t) : s.level ≤ t.level :=
  add_le_add (add_le_add (h .x) (h .y)) (h .z)

/-- Subgrids that are finer one than the other, at one level, have the same resolutions. -/
theorem Subregion.Finer.eq_of_level (h : s.Finer t) (hl : t.level ≤ s.level) : s.SameRes t := by
  have hx := h .x
  have hy := h .y
  have hz := h .z
  unfold level at hl
  dsimp only [res] at hx hy hz
  exact ⟨by omega, by omega, by omega⟩

theorem axisRounds_of_sameRes (h : s.SameRes t) (a : Axis) : AxisRounds s t a := by
  have hone : refinement s.res t a = 1 := refinement_self (sameRes_axis.mp h a).symm
  unfold AxisRounds
  rw [hone]
  exact ⟨fun hover => absurd (one_dvd _) hover.2, fun hover => absurd (one_dvd _) hover.2⟩

theorem intersectSubgrids_exact {s₁ s₂ : Subgrid} (h : RoundsInto s₁ s₂) : IntersectsExactly s₁ s₂ := by
  by_cases hl : s₂.level > s₁.level
  · have heq : intersectSubgrids s₁ s₂ = intersectAxes s₁ (extractSubgrid s₁.rx s₁.ry s₁.rz s₂) := by
      rw [intersectSubgrids, if_pos hl, if_pos hl]
      rfl
    rcases h with ⟨hfin, hr⟩ | ⟨hfin, -⟩
    · unfold IntersectsExactly
      rw [heq]
      exact intersectAxes_exact hfin hr
    · exact absurd hfin.level_le (not_le.mpr hl)
  · have heq : intersectSubgrids s₁ s₂ = intersectAxes s₂ (extractSubgrid s₂.rx s₂.ry s₂.rz s₁) := by
      rw [intersectSubgrids, if_neg hl, if_neg hl]
      rfl
    have hfin : s₂.Finer s₁ ∧ ∀ a, AxisRounds s₂ s₁ a := by
      rcases h with ⟨hfin, -⟩ | h
      · have hsame := hfin.eq_of_level (not_lt.mp hl)
        exact ⟨fun a => (sameRes_axis.mp hsame a).ge, axisRounds_of_sameRes hsame.symm⟩
      · exact h
    unfold IntersectsExactly
    rw [heq, Set.inter_comm]
    exact intersectAxes_exact hfin.1 hfin.2

end Intersect

/-- Along resolutions that are in order, extraction and intersection have the common points. -/
theorem refined_exact (r : Axis → ℤ) (s s₁ s₂ : Subgrid) (hcoarse : ∀ a, r a ≤ s.res a) (hup : RoundsUp r s)
    (hinto : RoundsInto s₁ s₂) : ExtractsExactly r s ∧ IntersectsExactly s₁ s₂ := by
  constructor
  · exact extractSubgrid_exact hcoarse hup
  · exact intersectSubgrids_exact hinto

/-- Two fine cells from index one on, and four coarse ones. -/
def finePair : Subgrid := newSubgrid 1 0 0 2 1 1 1 0 0 0

def coarseFour : Subgrid := newSubgrid (-1) 0 0 4 1 1 0 0 0 0

theorem finePair_exact : ExtractsExactly coarseFour.res finePair ∧ IntersectsExactly finePair coarseFour := by
  apply refined_exact
  · intro a
    cases a <;> decide
  · intro a
    cases a <;> decide
  · apply Or.inr
    constructor
    · intro a
      cases a <;> decide
    · intro a
      unfold AxisRounds
      cases a <;> decide

/-- A column that is finer along the second axis, and a row that is finer along the first. -/
def fineColumn : Subgrid := newSubgrid 0 0 0 1 4 1 0 1 0 0

def fineRow : Subgrid := newSubgrid 0 0 0 4 2 1 1 0 0 0

/-- Of the cells returned for the two, one lies between the rows of the second. -/
theorem fineRow_not_exact : ¬ ∀ s₁ s₂ : Subgrid, IntersectsExactly s₁ s₂ := by
  intro h
  have hsome : intersectSubgrids fineRow fineColumn = some (newSubgrid 0 0 0 1 2 1 0 1 0 0) := by decide
  have hpos := (h fineRow fineColumn).1 _ hsome
  have hmem : position (newSubgrid 0 0 0 1 2 1 0 1 0 0).res (0, 1, 0) ∈
      (newSubgrid 0 0 0 1 2 1 0 1 0 0).positions := ⟨(0, 1, 0), by decide, rfl⟩
  rw [hpos] at hmem
  obtain ⟨⟨c, -, hc⟩, -⟩ := hmem
  -- twice an index of the second axis would be one
  have hy := congrFun hc .y
  have htwo : (c.2.1 : ℚ) * 2 = 1 := by
    have : (c.2.1 : ℚ) = 1 / 2 := by
      simpa [position, fineRow, newSubgrid, res, Axis.coord] using hy
    rw [this]
    norm_num
  have hint : c.2.1 * 2 = 1 := by exact_mod_cast htwo
  omega

end ParFlow

/-! `SubtractSubgrids` for a second subgrid at a finer resolution. Its bounds are rounded to coarse indices,
and what lies between the rounded bounds is cut away. -/

namespace ParFlow

open Cover Subregion TruncDiv

/-- The points of the first subgrid that are not points of the second, tiled at the first resolution. -/
def SubtractsExactly (s₁ s₂ : Subgrid) : Prop :=
  let pieces := subtractSubgrids s₁ s₂
  Exact cells pieces {c | c ∈ s₁.cells ∧ position s₁.res c ∉ s₂.positions} ∧ (∀ p ∈ pieces, p.SameRes s₁) ∧
    (s₁.NonEmpty → (∀ c ∈ s₁.cells, position s₁.res c ∉ s₂.positions) → pieces = [s₁])

/-- An index of the first subgrid lies in the second. -/
def HasCommon (s₁ s₂ : Subgrid) (a : Axis) : Prop :=
  ∃ x, (s₁.lo a ≤ x ∧ x < s₁.lo a + s₁.num a) ∧
    s₂.lo a ≤ x * refinement s₁.res s₂ a ∧ x * refinement s₁.res s₂ a < s₂.lo a + s₂.num a

/-- The second subgrid lies behind or before the first one, with its bounds moved where they overshoot. -/
def IsFar (s₁ s₂ : Subgrid) (a : Axis) : Prop :=
  (s₁.lo a + s₁.num a - 1) * refinement s₁.res s₂ a < moved (s₂.lo a) (refinement s₁.res s₂ a) ∨
    moved (s₂.lo a + s₂.num a) (refinement s₁.res s₂ a) ≤ s₁.lo a * refinement s₁.res s₂ a

/-! ## One axis -/

/-- Cut points that exceed the rounded bounds by at most one keep the right part only outside the subgrid. -/
theorem keepsAxis_right_iff {l u e₀ e₁ : ℤ} (t₀ t₁ : ℤ) (hlu : l < u) (h₀ : e₀ = 0 ∨ e₀ = 1) (h₁ : e₁ = 0 ∨ e₁ = 1) :
    (¬ (t₀ + e₀ ≥ u ∨ t₁ + e₁ ≤ l) ∧
      ∀ x, (l ≤ x ∧ x < u) → (KeepsAxis (t₀ + e₀, t₁ + e₁) x ↔ t₀ ≤ x ∧ x < t₁)) ↔
      (∃ x, (l ≤ x ∧ x < u) ∧ t₀ ≤ x ∧ x < t₁) ∧ (e₀ = 1 → t₀ + 1 ≤ l) ∧ (e₁ = 1 → u - 1 < t₁) := by
  unfold KeepsAxis
  dsimp only
  constructor
  · rintro ⟨hm, hkeep⟩
    -- the first index that is kept
    have hfirst := (hkeep (max l (t₀ + e₀)) (by omega)).mp (by omega)
    refine ⟨⟨_, by omega, hfirst⟩, fun he => ?_, fun he => ?_⟩
    · by_contra hl
      have := (hkeep t₀ (by omega)).mpr (by omega)
      omega
    · by_contra hu
      have := (hkeep t₁ (by omega)).mp (by omega)
      omega
  · rintro ⟨⟨x, hx, hxt⟩, hlower, hupper⟩
    refine ⟨by omega, fun y hy => ?_⟩
    rcases h₀ with rfl | rfl <;> rcases h₁ with rfl | rfl <;> omega

section Axis

variable {s₁ s₂ : Subgrid} {a : Axis}

theorem ceilQuot_eq_ceil (s₁ s₂ : Subgrid) (a : Axis) (t : ℤ) : ceilQuot t (refinement s₁.res s₂ a) =
    ceil t (refinement s₁.res s₂ a) + if Overshoots t (refinement s₁.res s₂ a) then 1 else 0 :=
  tdiv_eq_ceil (refinement_pos _ _ _)

theorem misses_iff (h : s₁.res a ≤ s₂.res a) : missesAxis s₁ a (cutPoints s₁ s₂ a) ↔ IsFar s₁ s₂ a := by
  have hd := refinement_pos s₁.res s₂ a
  unfold missesAxis IsFar
  rw [cutPoints_eq h]
  dsimp only
  rw [ceilQuot, ceilQuot, tdiv_le_iff hd, ← lt_tdiv_iff hd, Int.sub_one_lt_iff]

/-- The kept part of an axis is the common one exactly when there is one and the bounds are rounded well. -/
theorem axis_right_iff (h : s₁.res a ≤ s₂.res a) (hs : 0 < s₁.num a) :
    (¬ IsFar s₁ s₂ a ∧ ∀ x, (s₁.lo a ≤ x ∧ x < s₁.lo a + s₁.num a) → (KeepsAxis (cutPoints s₁ s₂ a) x ↔
      s₂.lo a ≤ x * refinement s₁.res s₂ a ∧ x * refinement s₁.res s₂ a < s₂.lo a + s₂.num a)) ↔
      HasCommon s₁ s₂ a ∧ AxisRounds s₁ s₂ a := by
  have hd := refinement_pos s₁.res s₂ a
  rw [← misses_iff h, cutPoints_eq h, ceilQuot_eq_ceil, ceilQuot_eq_ceil]
  unfold missesAxis HasCommon AxisRounds
  have hbit : ∀ t : ℤ, (if Overshoots t (refinement s₁.res s₂ a) then (1 : ℤ) else 0) = 0 ∨
      (if Overshoots t (refinement s₁.res s₂ a) then (1 : ℤ) else 0) = 1 := by
    intro t
    split_ifs
    · exact Or.inr rfl
    · exact Or.inl rfl
  have hone : ∀ t : ℤ, (if Overshoots t (refinement s₁.res s₂ a) then (1 : ℤ) else 0) = 1 ↔
      Overshoots t (refinement s₁.res s₂ a) := by
    intro t
    split_ifs with ht
    · exact iff_of_true rfl ht
    · exact iff_of_false zero_ne_one ht
  have hlower : s₂.lo a + refinement s₁.res s₂ a ≤ s₁.lo a * refinement s₁.res s₂ a ↔
      ceil (s₂.lo a) (refinement s₁.res s₂ a) + 1 ≤ s₁.lo a := by
    rw [← le_sub_iff_add_le (a := ceil _ _), ceil_le_iff hd, sub_mul, one_mul, le_sub_iff_add_le]
  have hmain := keepsAxis_right_iff (ceil (s₂.lo a) (refinement s₁.res s₂ a))
    (ceil (s₂.lo a + s₂.num a) (refinement s₁.res s₂ a))
    (show s₁.lo a < s₁.lo a + s₁.num a by omega) (hbit (s₂.lo a)) (hbit (s₂.lo a + s₂.num a))
  simp only [hone, ceil_le_iff hd, lt_ceil_iff hd] at hmain
  rw [hlower]
  exact hmain

end Axis

/-! ## The pieces -/

section Pieces

variable {s₁ s₂ : Subgrid}

theorem subtractsExactly_of_empty (hs : ¬ s₁.NonEmpty) : SubtractsExactly s₁ s₂ := by
  have hempty : ∀ c, c ∉ s₁.cells := by
    intro c hc
    apply hs
    rw [nonEmpty_axis]
    intro a
    have := mem_cells_axis.mp hc a
    omega
  have hnone : ∀ p ∈ subtractSubgrids s₁ s₂, ∀ c, c ∉ p.cells := by
    intro p hp c hc
    exact hempty c ((subtractSubgrids_partOf hp).2.2 hc)
  refine ⟨⟨?_, fun c => ?_⟩, fun p hp => (subtractSubgrids_partOf hp).1, fun h => absurd h hs⟩
  · apply List.pairwise_of_forall_mem_list
    intro p hp q _
    rw [Finset.disjoint_left]
    exact fun c hc => absurd hc (hnone p hp c)
  · constructor
    · rintro ⟨p, hp, hc⟩
      exact absurd hc (hnone p hp c)
    · rintro ⟨hc, -⟩
      exact absurd hc (hempty c)

variable (hfin : s₁.Finer s₂)

include hfin

theorem exists_common_iff : (∃ c ∈ s₁.cells, position s₁.res c ∈ s₂.positions) ↔ ∀ a, HasCommon s₁ s₂ a := by
  constructor
  · rintro ⟨c, hc, hpos⟩ a
    exact ⟨a.coord c, mem_cells_axis.mp hc a, (position_mem_iff hfin).mp hpos a⟩
  · intro h
    choose x hx hxt using h
    refine ⟨Axis.cell x, mem_cells_axis.mpr fun a => ?_, (position_mem_iff hfin).mpr fun a => ?_⟩
    · rw [Axis.coord_cell]
      exact hx a
    · rw [Axis.coord_cell]
      exact hxt a

/-- When an axis misses, the subgrid is returned whole, which is right when there is no common point. -/
theorem subtractsExactly_of_far {a : Axis} (hfar : IsFar s₁ s₂ a) :
    SubtractsExactly s₁ s₂ ↔ ∃ b, ¬ HasCommon s₁ s₂ b := by
  rw [← not_forall, ← exists_common_iff hfin]
  unfold SubtractsExactly
  rw [subtractSubgrids_of_misses ((misses_iff (hfin a)).mpr hfar)]
  constructor
  · rintro ⟨⟨-, hcover⟩, -⟩ ⟨c, hc, hpos⟩
    exact ((hcover c).mp ⟨s₁, List.mem_singleton_self _, hc⟩).2 hpos
  · intro hnone
    refine ⟨(exact_singleton cells s₁).congr fun c => ?_, ?_, fun _ _ => rfl⟩
    · exact ⟨fun hc => ⟨hc, fun hpos => hnone ⟨c, hc, hpos⟩⟩, fun hc => hc.1⟩
    · intro p hp
      rw [List.mem_singleton.mp hp]
      exact sameRes_axis.mpr fun _ => rfl

/-- When no axis misses, a non-empty box is cut away, which is right when it is the common one. -/
theorem subtractsExactly_of_near (hs : s₁.NonEmpty) (hnear : ∀ a, ¬ IsFar s₁ s₂ a) :
    SubtractsExactly s₁ s₂ ↔ ∀ a, HasCommon s₁ s₂ a ∧ AxisRounds s₁ s₂ a := by
  have hn := nonEmpty_axis.mp hs
  obtain ⟨r, hcut⟩ := subtractSubgrids_isCut fun a hm => hnear a ((misses_iff (hfin a)).mp hm)
  let kept : Axis → Set ℤ := fun a =>
    {x | (s₁.lo a ≤ x ∧ x < s₁.lo a + s₁.num a) ∧ KeepsAxis (cutPoints s₁ s₂ a) x}
  let common : Axis → Set ℤ := fun a =>
    {x | (s₁.lo a ≤ x ∧ x < s₁.lo a + s₁.num a) ∧
      s₂.lo a ≤ x * refinement s₁.res s₂ a ∧ x * refinement s₁.res s₂ a < s₂.lo a + s₂.num a}
  have hkept : ∀ a, (kept a).Nonempty := by
    intro a
    have hm : ¬ missesAxis s₁ a (cutPoints s₁ s₂ a) := fun h => hnear a ((misses_iff (hfin a)).mp h)
    have ha := hn a
    unfold missesAxis at hm
    refine ⟨max (s₁.lo a) (cutPoints s₁ s₂ a).1, by omega, ?_⟩
    unfold KeepsAxis
    omega
  have haxis : ∀ a, kept a = common a ↔ HasCommon s₁ s₂ a ∧ AxisRounds s₁ s₂ a := by
    intro a
    rw [← axis_right_iff (hfin a) (hn a), and_iff_right (hnear a), Set.ext_iff]
    exact forall_congr' fun x => and_congr_right_iff
  have hboxes : (∀ c ∈ s₁.cells, (∀ a, KeepsAxis (cutPoints s₁ s₂ a) (a.coord c)) ↔
      position s₁.res c ∈ s₂.positions) ↔ ∀ a, kept a = common a := by
    have hnever : ¬ ((∃ a, kept a = ∅) ∧ ∃ a, common a = ∅) := by
      rintro ⟨⟨a, ha⟩, -⟩
      exact (hkept a).ne_empty ha
    rw [← or_iff_left (a := ∀ a, kept a = common a) hnever, ← Axis.box_eq_iff]
    refine forall_congr' fun c => ?_
    rw [position_mem_iff hfin, ← and_congr_right_iff, mem_cells_axis, ← forall_and, ← forall_and]
    exact Iff.rfl
  rw [← forall_congr' haxis, ← hboxes]
  constructor
  · rintro ⟨⟨-, hcover⟩, -⟩ c hc
    have h := (hcut.exact.2 c).symm.trans (hcover c)
    simp only [Set.mem_ofPred_eq, and_congr_right_iff] at h
    exact not_iff_not.mp (h hc)
  · intro h
    refine ⟨hcut.exact.congr fun c => and_congr_right fun hc => not_congr (h c hc),
      fun p hp => (hcut.pieces p hp).1, fun _ hnone => ?_⟩
    -- the box that is cut away is not empty, so that there are common points
    obtain ⟨c, hc⟩ := Axis.exists_cell_iff.mpr hkept
    have hmem : c ∈ s₁.cells := mem_cells_axis.mpr fun a => (hc a).1
    exact absurd ((h c hmem).mp fun a => (hc a).2) (hnone c hmem)

/-- The exact condition: with common points, bounds overshoot only outside the first subgrid; without, some
axis keeps the two apart. -/
theorem subtractsExactly_iff : SubtractsExactly s₁ s₂ ↔ ¬ s₁.NonEmpty ∨
    (∀ a, HasCommon s₁ s₂ a ∧ AxisRounds s₁ s₂ a) ∨ (∃ a, ¬ HasCommon s₁ s₂ a) ∧ ∃ a, IsFar s₁ s₂ a := by
  by_cases hs : s₁.NonEmpty
  · rw [or_iff_right (not_not.mpr hs)]
    by_cases hfar : ∃ a, IsFar s₁ s₂ a
    · obtain ⟨a, ha⟩ := hfar
      have hnever : ¬ ∀ a, HasCommon s₁ s₂ a ∧ AxisRounds s₁ s₂ a := fun h =>
        ((axis_right_iff (hfin a) (nonEmpty_axis.mp hs a)).mpr (h a)).1 ha
      rw [subtractsExactly_of_far hfin ha, or_iff_right hnever]
      exact (and_iff_left ⟨a, ha⟩).symm
    · rw [subtractsExactly_of_near hfin hs (not_exists.mp hfar), or_iff_left fun h => hfar h.2]
  · exact iff_of_true (subtractsExactly_of_empty hs) (Or.inl hs)

end Pieces

/-- Four coarse cells. -/
def coarseRow : Subgrid := newSubgrid 0 0 0 4 1 1 0 0 0 0

/-- A fine cell between the first two of them. -/
def fineBetween : Subgrid := newSubgrid 1 0 0 1 1 1 1 0 0 0

theorem coarseRow_subtractsExactly_iff : SubtractsExactly coarseRow fineBetween ↔ ¬ coarseRow.NonEmpty ∨
    (∀ a, HasCommon coarseRow fineBetween a ∧ AxisRounds coarseRow fineBetween a) ∨
      (∃ a, ¬ HasCommon coarseRow fineBetween a) ∧ ∃ a, IsFar coarseRow fineBetween a := by
  apply subtractsExactly_iff
  intro a
  cases a <;> decide

/-- No coarse cell is a fine one, but all of them except the first are lost. -/
theorem coarseRow_not_subtractsExactly :
    ¬ ∀ s₁ s₂ : Subgrid, s₁.Finer s₂ → SubtractsExactly s₁ s₂ := by
  intro h
  have hfin : coarseRow.Finer fineBetween := by
    intro a
    cases a <;> decide
  have hcover := ((h coarseRow fineBetween hfin).1.2 (1, 0, 0)).mpr
  have hout : position coarseRow.res (1, 0, 0) ∉ fineBetween.positions := by
    rw [position_mem_iff hfin]
    intro hin
    exact absurd (hin .x) (by decide)
  exact absurd (hcover ⟨by decide, hout⟩) (by decide)

end ParFlow
