import ParFlow.Lib.TruncDiv
import ParFlow.Grid.SubgridCells
import ParFlow.Comm.ComputeDefs
import ParFlow.Comm.PackAddress

/-! The law of `ProjectSubgrid` for all strides and offsets. The bounds are rounded to the indices whose
negative is congruent to the offset, and they are rounded by a division that truncates. -/

namespace ParFlow

open Subregion TruncDiv

/-- The points of the subgrid in the index region that contains `index`. -/
def InIndexRegion (subgrid : Subgrid) (stride index c : Cell) : Prop :=
  c ∈ subgrid.cells ∧ ∀ a : Axis, a.coord stride ∣ a.coord c - a.coord index

/-- The documented law: the projection has the points of the index region, and says whether there are any. -/
def ProjectsOnto (subgrid : Subgrid) (stride index : Cell) : Prop :=
  let p := projectSubgrid subgrid stride.1 stride.2.1 stride.2.2 index.1 index.2.1 index.2.2
  (∀ c, c ∈ p.1.points ↔ InIndexRegion subgrid stride index c) ∧
    (p.2 = true ↔ ∃ c, InIndexRegion subgrid stride index c)

/-- The axis has an index of the region, which also holds the negative of the offset, and neither bound
is a negative number that leaves a remainder. -/
def AxisProjects (subgrid : Subgrid) (stride index : Cell) (a : Axis) : Prop :=
  HasIndex (a.coord stride) (a.coord index) (subgrid.lo a) (subgrid.lo a + subgrid.num a) ∧
    a.coord stride ∣ 2 * a.coord index ∧ ¬ Overshoots (subgrid.lo a + a.coord index) (a.coord stride) ∧
    ¬ Overshoots (subgrid.lo a + a.coord index + subgrid.num a) (a.coord stride)

/-- No index congruent to the negative of the offset lies between the bounds, moved where they overshoot. -/
def AxisMisses (subgrid : Subgrid) (stride index : Cell) (a : Axis) : Prop :=
  ¬ HasIndex (a.coord stride) (-a.coord index)
    (moved (subgrid.lo a + a.coord index) (a.coord stride) - a.coord index)
    (moved (subgrid.lo a + a.coord index + subgrid.num a) (a.coord stride) - a.coord index)

/-! ## One axis -/

section Axis

variable {lo n s i x : ℤ}

/-- The indices that a projection leaves along one axis. -/
theorem mem_projectAxis (lo n i x : ℤ) (hs : 0 < s) :
    (∃ k, (0 ≤ k ∧ k < (projectAxis lo n s i).2) ∧ (projectAxis lo n s i).1 + k * s = x) ↔
      s ∣ x - -i ∧ moved (lo + i) s - i ≤ x ∧ x < moved (lo + i + n) s - i := by
  have hnum : (projectAxis lo n s i).2 = (lo + i + n + (s - 1)).tdiv s - (lo + i + (s - 1)).tdiv s := by
    unfold projectAxis
    dsimp only
    rw [sub_sub_sub_cancel_right, ← sub_mul, Int.mul_tdiv_cancel _ hs.ne']
  have hlo : (projectAxis lo n s i).1 = (lo + i + (s - 1)).tdiv s * s - i := rfl
  rw [hnum, hlo]
  constructor
  · rintro ⟨k, ⟨hk, hkn⟩, rfl⟩
    have hlower := (tdiv_le_iff hs).mp (le_add_of_nonneg_right (a := (lo + i + (s - 1)).tdiv s) hk)
    have hupper := (lt_tdiv_iff hs).mp (lt_sub_iff_add_lt'.mp hkn)
    rw [add_mul] at hlower hupper
    refine ⟨⟨(lo + i + (s - 1)).tdiv s + k, by ring⟩, by linarith, by linarith⟩
  · rintro ⟨⟨q, hq⟩, hlower, hupper⟩
    have hx : x = q * s - i := by linarith
    have hle := (tdiv_le_iff (t := lo + i) (q := q) hs).mpr (by linarith)
    have hlt := (lt_tdiv_iff (t := lo + i + n) (q := q) hs).mpr (by linarith)
    exact ⟨q - (lo + i + (s - 1)).tdiv s, by omega, by rw [hx]; ring⟩

theorem projectAxis_pos_iff (hs : 0 < s) : 0 < (projectAxis lo n s i).2 ↔
    HasIndex s (-i) (moved (lo + i) s - i) (moved (lo + i + n) s - i) := by
  constructor
  · intro h
    exact ⟨_, (mem_projectAxis lo n i _ hs).mp ⟨0, ⟨le_rfl, h⟩, rfl⟩⟩
  · rintro ⟨x, hx⟩
    obtain ⟨k, hk, -⟩ := (mem_projectAxis lo n i x hs).mpr hx
    omega

/-- The class of `-i` between moved bounds is the class of `i` between the bounds. -/
theorem classes_eq_iff (hs : 0 < s) (hne : HasIndex s i lo (lo + n)) :
    (∀ x, (s ∣ x - -i ∧ moved (lo + i) s - i ≤ x ∧ x < moved (lo + i + n) s - i) ↔
      s ∣ x - i ∧ lo ≤ x ∧ x < lo + n) ↔
      s ∣ 2 * i ∧ ¬ Overshoots (lo + i) s ∧ ¬ Overshoots (lo + i + n) s := by
  constructor
  · intro h
    obtain ⟨x, hx, hlx, hxu, hxl⟩ := hasIndex_first hne hs
    have hleft := (h x).mpr ⟨hx, hlx, hxu⟩
    have htwo : s ∣ 2 * i := by
      have := Int.dvd_sub hleft.1 hx
      rwa [show x - -i - (x - i) = 2 * i by ring] at this
    refine ⟨htwo, fun hover => ?_, fun hover => ?_⟩
    · -- the first index would be lost
      have hmoved := hleft.2.1
      rw [moved_of_overshoots hover] at hmoved
      linarith
    · -- an index behind the subgrid would be found
      obtain ⟨y, hy, hly, hyl⟩ := exists_first s (-i) (lo + n) hs
      have hlower : moved (lo + i) s - i ≤ y := by linarith [hleft.2.1]
      have hright := (h y).mp ⟨hy, hlower, by rw [moved_of_overshoots hover]; linarith⟩
      linarith [hright.2.2]
  · rintro ⟨htwo, hlower, hupper⟩ x
    rw [moved_of_not hlower, moved_of_not hupper, add_sub_cancel_right, add_right_comm, add_sub_cancel_right]
    apply and_congr_left
    intro _
    have hsum : x - -i = x - i + 2 * i := by ring
    rw [hsum]
    exact Int.dvd_add_left htwo

end Axis

/-! ## The law -/

section Law

variable {subgrid : Subgrid} {stride index c : Cell}

/-- The indices of the region along an axis. -/
def regionAxis (subgrid : Subgrid) (stride index : Cell) (a : Axis) : Set ℤ :=
  {x | a.coord stride ∣ x - a.coord index ∧ subgrid.lo a ≤ x ∧ x < subgrid.lo a + subgrid.num a}

/-- The indices that are left along an axis. -/
def projectedAxis (subgrid : Subgrid) (stride index : Cell) (a : Axis) : Set ℤ :=
  {x | a.coord stride ∣ x - -a.coord index ∧
    moved (subgrid.lo a + a.coord index) (a.coord stride) - a.coord index ≤ x ∧
    x < moved (subgrid.lo a + a.coord index + subgrid.num a) (a.coord stride) - a.coord index}

theorem inIndexRegion_iff :
    InIndexRegion subgrid stride index c ↔ ∀ a : Axis, a.coord c ∈ regionAxis subgrid stride index a := by
  unfold InIndexRegion regionAxis
  rw [mem_cells_axis, ← forall_and]
  exact forall_congr' fun a => and_comm

variable (hs : ∀ a : Axis, 0 < a.coord stride)

include hs

theorem projectSubgrid_nonempty_iff :
    (projectSubgrid subgrid stride.1 stride.2.1 stride.2.2 index.1 index.2.1 index.2.2).2 = true ↔
      ∀ a, ¬ AxisMisses subgrid stride index a := by
  unfold projectSubgrid
  simp only [AxisMisses, not_not]
  rw [Axis.forall, ← projectAxis_pos_iff (hs .x), ← projectAxis_pos_iff (hs .y), ← projectAxis_pos_iff (hs .z)]
  split_ifs with h
  · exact iff_of_true rfl h
  · exact iff_of_false id h

theorem mem_points_projectSubgrid :
    c ∈ (projectSubgrid subgrid stride.1 stride.2.1 stride.2.2 index.1 index.2.1 index.2.2).1.points ↔
      ∀ a : Axis, a.coord c ∈ projectedAxis subgrid stride index a := by
  have hx := mem_projectAxis subgrid.ix subgrid.nx index.1 c.1 (hs .x)
  have hy := mem_projectAxis subgrid.iy subgrid.ny index.2.1 c.2.1 (hs .y)
  have hz := mem_projectAxis subgrid.iz subgrid.nz index.2.2 c.2.2 (hs .z)
  unfold projectedAxis
  rw [Axis.forall, mem_points]
  simp only [Set.mem_ofPred_eq]
  unfold projectSubgrid
  dsimp only [Axis.coord, lo, num] at hx hy hz ⊢
  rw [← hx, ← hy, ← hz]
  split_ifs with h
  · exact Iff.rfl
  · -- no index is left along some axis, where no number is below the size
    constructor
    · rintro ⟨⟨k, hk, -⟩, -⟩
      exact absurd (hk.1.trans_lt hk.2) (lt_irrefl 0)
    · rintro ⟨⟨k, hk, -⟩, ⟨j, hj, -⟩, l, hl, -⟩
      exact absurd ⟨by omega, by omega, by omega⟩ h

/-- The flag follows from the points. -/
theorem projectsOnto_iff_points : ProjectsOnto subgrid stride index ↔
    ∀ c : Cell, (∀ a : Axis, a.coord c ∈ projectedAxis subgrid stride index a) ↔
      ∀ a : Axis, a.coord c ∈ regionAxis subgrid stride index a := by
  unfold ProjectsOnto
  simp only [mem_points_projectSubgrid hs, inIndexRegion_iff, projectSubgrid_nonempty_iff hs]
  constructor
  · exact fun h => h.1
  · intro h
    refine ⟨h, ?_⟩
    simp only [← h]
    rw [Axis.exists_cell_iff]
    exact forall_congr' fun a => not_not

/-- The law holds exactly where every axis projects, or where region and projection are both empty. -/
theorem projectsOnto_iff : ProjectsOnto subgrid stride index ↔
    (∀ a, AxisProjects subgrid stride index a) ∨
      (∃ a, AxisMisses subgrid stride index a) ∧
        ∃ a : Axis, ¬ HasIndex (a.coord stride) (a.coord index) (subgrid.lo a) (subgrid.lo a + subgrid.num a) := by
  have hempty : ∀ a, projectedAxis subgrid stride index a = ∅ ↔ AxisMisses subgrid stride index a := fun a => by
    rw [← Set.not_nonempty_iff_eq_empty]
    rfl
  have hregion : ∀ a : Axis, regionAxis subgrid stride index a = ∅ ↔
      ¬ HasIndex (a.coord stride) (a.coord index) (subgrid.lo a) (subgrid.lo a + subgrid.num a) := fun a => by
    rw [← Set.not_nonempty_iff_eq_empty]
    rfl
  have haxis : ∀ a : Axis,
      HasIndex (a.coord stride) (a.coord index) (subgrid.lo a) (subgrid.lo a + subgrid.num a) →
      (projectedAxis subgrid stride index a = regionAxis subgrid stride index a ↔
        AxisProjects subgrid stride index a) := by
    intro a hne
    rw [Set.ext_iff]
    exact (classes_eq_iff (hs a) hne).trans (and_iff_right hne).symm
  rw [projectsOnto_iff_points hs, Axis.box_eq_iff]
  simp only [hempty, hregion]
  by_cases hall : ∀ a : Axis,
      HasIndex (a.coord stride) (a.coord index) (subgrid.lo a) (subgrid.lo a + subgrid.num a)
  · exact or_congr_left (forall_congr' fun a => haxis a (hall a))
  · obtain ⟨b, hb⟩ := not_forall.mp hall
    constructor
    · rintro (h | h)
      · refine Or.inr ⟨⟨b, ?_⟩, b, hb⟩
        rw [← hempty, h b, hregion]
        exact hb
      · exact Or.inr h
    · rintro (h | h)
      · exact absurd (h b).1 hb
      · exact Or.inr h

end Law

/-- A row of three cells. -/
def threeCells : Subgrid := newSubgrid 0 0 0 3 1 1 0 0 0 0

theorem threeCells_projectsOnto_iff : ProjectsOnto threeCells (3, 1, 1) (1, 0, 0) ↔
    (∀ a, AxisProjects threeCells (3, 1, 1) (1, 0, 0) a) ∨ (∃ a, AxisMisses threeCells (3, 1, 1) (1, 0, 0) a) ∧
      ∃ a : Axis, ¬ HasIndex (a.coord (3, 1, 1)) (a.coord (1, 0, 0)) (threeCells.lo a)
        (threeCells.lo a + threeCells.num a) := by
  apply projectsOnto_iff
  intro a
  cases a <;> decide

/-- The index region that contains the middle cell is projected to the last one. -/
theorem threeCells_not_projectsOnto :
    ¬ ∀ (subgrid : Subgrid) (stride index : Cell), (∀ a : Axis, 0 < a.coord stride) →
      ProjectsOnto subgrid stride index := by
  intro h
  have hlaw := (h threeCells (3, 1, 1) (1, 0, 0) (by intro a; cases a <;> decide)).1 (1, 0, 0)
  have hmem : InIndexRegion threeCells (3, 1, 1) (1, 0, 0) (1, 0, 0) := by
    constructor
    · decide
    · intro a
      cases a <;> decide
  exact absurd (hlaw.mpr hmem) (by decide)

end ParFlow
