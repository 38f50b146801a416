import ParFlow.Comm.ProjectLaw
import ParFlow.Solver.MGSemiDefs

/-! Every level of the multigrid splits the cells of its subgrids into coarse and fine ones, and the next grid has the
coarse ones. -/

namespace ParFlow

open Subregion TruncDiv

/-- The cell of a finer grid that a cell of the coarse one stands for. -/
def double (dir : Axis) (c : Cell) : Cell :=
  ((coarseStride dir).1 * c.1, (coarseStride dir).2.1 * c.2.1, (coarseStride dir).2.2 * c.2.2)

/-- Disjoint subgrids with indices that are not negative. -/
structure IsPartition (subgrids : SubgridArray) : Prop where
  nonneg : ∀ s ∈ subgrids, ∀ a, 0 ≤ s.lo a
  disjoint : subgrids.Pairwise fun s t => Disjoint s.cells t.cells

/-- The subgrid of the coarse grid has the halves of the cells that are even in the direction. -/
def IsCoarse (dir : Axis) (s t : Subgrid) : Prop := t.process = s.process ∧ ∀ c, c ∈ t.cells ↔ double dir c ∈ s.cells

/-- The two regions hold the cells of the subgrid, each of them once. -/
def SplitsInto (s : Subgrid) (regions : Subregion × Subregion) : Prop :=
  (∀ c, c ∈ regions.1.points → c ∉ regions.2.points) ∧ ∀ c, c ∈ s.cells ↔ c ∈ regions.1.points ∨ c ∈ regions.2.points

/-- One step from a fine grid to a coarse one, as process `myProc` sees it. -/
structure IsCoarsening (myProc : ℤ) (dir : Axis) (fine coarse : Grid) (fSra cSra : SubgridArray) : Prop where
  fine_subgrids : fine.subgrids = getGridSubgrids fine.allSubgrids myProc
  coarse_subgrids : coarse.subgrids = getGridSubgrids coarse.allSubgrids myProc
  fine_partition : IsPartition fine.allSubgrids
  coarse_partition : IsPartition coarse.allSubgrids
  coarse_cells : List.Forall₂ (IsCoarse dir) fine.allSubgrids coarse.allSubgrids
  lengths : fSra.length = fine.subgrids.length ∧ cSra.length = fine.subgrids.length
  splits : List.Forall₂ SplitsInto fine.subgrids (fSra.zip cSra)

section

variable {dir a : Axis} {index lo n x : ℤ} {s t : Subgrid} {c : Cell} {subgrids coarse : SubgridArray}

/-! ## One axis -/

theorem coarseStride_self (dir : Axis) : dir.coord (coarseStride dir) = 2 := by cases dir <;> rfl

theorem coarseStride_of_ne (h : a ≠ dir) : a.coord (coarseStride dir) = 1 := by
  cases a <;> cases dir <;> first | rfl | exact absurd rfl h

theorem coarseStride_pos (dir a : Axis) : 0 < a.coord (coarseStride dir) := by
  by_cases h : a = dir
  · rw [h, coarseStride_self]
    exact two_pos
  · rw [coarseStride_of_ne h]
    exact one_pos

@[simp] theorem coord_double (dir a : Axis) (c : Cell) : a.coord (double dir c) = a.coord (coarseStride dir) * a.coord c := by
  cases a <;> rfl

theorem coord_index (a : Axis) (index : ℤ) : a.coord (index, index, index) = index := by cases a <;> rfl

/-- From an index that is not negative the bounds are rounded as they should be; of an empty range nothing is left. -/
theorem moved_bounds (hlo : 0 ≤ lo) (hindex : 0 ≤ index) : moved (lo + index) 2 - index ≤ x ∧
    x < moved (lo + index + n) 2 - index ↔ lo ≤ x ∧ x < lo + n := by
  have hlower : ¬ Overshoots (lo + index) 2 := not_overshoots_of_pos (by omega)
  rw [moved_of_not hlower, add_sub_cancel_right]
  apply and_congr_right
  intro hx
  by_cases hover : Overshoots (lo + index + n) 2
  · have hneg := hover.1
    rw [moved_of_overshoots hover]
    constructor <;> intro h <;> omega
  · rw [moved_of_not hover]
    constructor <;> intro h <;> omega

/-- The points of a projection are the cells whose index in the direction is in the class. -/
theorem mem_points_projectOnto (hs : ∀ a, 0 ≤ s.lo a) (hindex : 0 ≤ index) :
    c ∈ (projectOnto dir index s).points ↔ c ∈ s.cells ∧ 2 ∣ dir.coord c + index := by
  have hmem : c ∈ (projectOnto dir index s).points ↔
      ∀ a : Axis, a.coord c ∈ projectedAxis s (coarseStride dir) (index, index, index) a :=
    @mem_points_projectSubgrid s (coarseStride dir) (index, index, index) c (coarseStride_pos dir)
  have haxis : ∀ a : Axis, a.coord c ∈ projectedAxis s (coarseStride dir) (index, index, index) a ↔
      (s.lo a ≤ a.coord c ∧ a.coord c < s.lo a + s.num a) ∧ (a = dir → 2 ∣ dir.coord c + index) := by
    intro a
    unfold projectedAxis
    rw [Set.mem_ofPred_eq, coord_index, sub_neg_eq_add]
    by_cases ha : a = dir
    · subst ha
      rw [coarseStride_self, moved_bounds (hs a) hindex, and_comm]
      exact and_congr_right fun _ => (true_imp_iff.symm.trans (imp_congr_left (iff_of_true trivial rfl)))
    · rw [coarseStride_of_ne ha, moved_one, moved_one, add_sub_cancel_right, add_right_comm, add_sub_cancel_right]
      exact ⟨fun h => ⟨h.2, fun heq => absurd heq ha⟩, fun h => ⟨one_dvd _, h.1⟩⟩
  rw [hmem, mem_cells_axis]
  constructor
  · intro h
    exact ⟨fun a => ((haxis a).mp (h a)).1, ((haxis dir).mp (h dir)).2 rfl⟩
  · rintro ⟨hcells, hclass⟩ a
    exact (haxis a).mpr ⟨hcells a, fun _ => hclass⟩

theorem splitsInto_projectOnto (hs : ∀ a, 0 ≤ s.lo a) :
    SplitsInto s (projectOnto dir fIndex s, projectOnto dir cIndex s) := by
  have hfine : ∀ c, c ∈ (projectOnto dir 1 s).points ↔ c ∈ s.cells ∧ 2 ∣ dir.coord c + 1 := fun c =>
    mem_points_projectOnto hs zero_le_one
  have hcoarse : ∀ c, c ∈ (projectOnto dir 0 s).points ↔ c ∈ s.cells ∧ 2 ∣ dir.coord c + 0 := fun c =>
    mem_points_projectOnto hs le_rfl
  unfold fIndex cIndex
  constructor
  · intro c hf hc
    have hodd := ((hfine c).mp hf).2
    have heven := ((hcoarse c).mp hc).2
    omega
  · intro c
    rw [hfine, hcoarse, ← and_or_left]
    exact (and_iff_left (by omega)).symm

/-! ## Conversion -/

theorem exp2_one : exp2 1 = 0 := by
  unfold exp2 exp2Loop
  rw [dif_neg (by decide)]

theorem exp2_two : exp2 2 = 1 := by
  unfold exp2 exp2Loop
  rw [dif_pos (by decide), if_neg (by decide)]
  unfold exp2Loop
  rw [dif_neg (by decide)]
  rfl

/-- The subgrid that a subregion is converted to, when its indices are divisible by its strides. -/
def converted (u : Subregion) : Subgrid :=
  { u with
    ix := u.ix.tdiv u.sx
    iy := u.iy.tdiv u.sy
    iz := u.iz.tdiv u.sz
    sx := 1
    sy := 1
    sz := 1
    rx := u.rx - exp2 u.sx
    ry := u.ry - exp2 u.sy
    rz := u.rz - exp2 u.sz }

/-- Indices divisible by the strides. -/
structure IsAligned (u : Subregion) : Prop where
  strided : u.Strided
  x : u.sx ∣ u.ix
  y : u.sy ∣ u.iy
  z : u.sz ∣ u.iz

theorem convertToSubgrid_eq {u : Subregion} (hu : IsAligned u) (hx : 0 ≤ exp2 u.sx) (hy : 0 ≤ exp2 u.sy)
    (hz : 0 ≤ exp2 u.sz) : convertToSubgrid u = some (converted u) := by
  have hrem : ¬ (u.ix.tmod u.sx ≠ 0 ∨ u.iy.tmod u.sy ≠ 0 ∨ u.iz.tmod u.sz ≠ 0) := by
    rw [Int.tmod_eq_zero_of_dvd hu.x, Int.tmod_eq_zero_of_dvd hu.y, Int.tmod_eq_zero_of_dvd hu.z]
    simp
  unfold convertToSubgrid
  dsimp only
  rw [if_neg hrem, if_neg (not_lt.mpr hx), if_neg (not_lt.mpr hy), if_neg (not_lt.mpr hz)]
  rfl

theorem exists_point_iff {stride : ℤ} (hs : 0 < stride) (hlo : stride ∣ lo) :
    (∃ k, (0 ≤ k ∧ k < n) ∧ lo + k * stride = stride * x) ↔ lo.tdiv stride ≤ x ∧ x < lo.tdiv stride + n := by
  obtain ⟨q, rfl⟩ := hlo
  rw [Int.mul_tdiv_cancel_left _ hs.ne']
  constructor
  · rintro ⟨k, hk, heq⟩
    have hsum : stride * (q + k) = stride * x := by
      rw [← heq]
      ring
    have := mul_left_cancel₀ hs.ne' hsum
    omega
  · rintro ⟨hle, hlt⟩
    exact ⟨x - q, by omega, by ring⟩

/-- The cells of the converted subgrid stand for the points of the subregion. -/
theorem mem_cells_converted {u : Subregion} (hu : IsAligned u) :
    c ∈ (converted u).cells ↔ (u.sx * c.1, u.sy * c.2.1, u.sz * c.2.2) ∈ u.points := by
  rw [mem_points, mem_cells_iff]
  dsimp only
  rw [exists_point_iff hu.strided.1 hu.x, exists_point_iff hu.strided.2.1 hu.y, exists_point_iff hu.strided.2.2 hu.z]
  rfl

theorem projectOnto_strides (dir : Axis) (index : ℤ) (s : Subgrid) : (projectOnto dir index s).sx = (coarseStride dir).1 ∧
    (projectOnto dir index s).sy = (coarseStride dir).2.1 ∧ (projectOnto dir index s).sz = (coarseStride dir).2.2 ∧
    (projectOnto dir index s).process = s.process := by
  unfold projectOnto projectSubgrid
  dsimp only
  split_ifs <;> exact ⟨rfl, rfl, rfl, rfl⟩

/-- The lower indices of a projection onto the coarse cells, behind a smaller number of coarse cells. -/
theorem projectOnto_lo (dir : Axis) (s : Subgrid) (a : Axis) :
    (projectOnto dir cIndex s).lo a = (s.lo a + (a.coord (coarseStride dir) - 1)).tdiv (a.coord (coarseStride dir)) *
      a.coord (coarseStride dir) := by
  unfold projectOnto projectSubgrid projectAxis cIndex
  dsimp only
  split_ifs <;> cases a <;> simp [lo, Axis.coord]

theorem isAligned_projectOnto (dir : Axis) (s : Subgrid) : IsAligned (projectOnto dir cIndex s) := by
  obtain ⟨hx, hy, hz, -⟩ := projectOnto_strides dir cIndex s
  have hpos := coarseStride_pos dir
  refine ⟨⟨?_, ?_, ?_⟩, ?_, ?_, ?_⟩
  · rw [hx]
    exact hpos .x
  · rw [hy]
    exact hpos .y
  · rw [hz]
    exact hpos .z
  · rw [hx]
    exact Dvd.intro_left _ (projectOnto_lo dir s .x).symm
  · rw [hy]
    exact Dvd.intro_left _ (projectOnto_lo dir s .y).symm
  · rw [hz]
    exact Dvd.intro_left _ (projectOnto_lo dir s .z).symm

theorem exp2_coarseStride (dir a : Axis) : 0 ≤ exp2 (a.coord (coarseStride dir)) := by
  by_cases h : a = dir
  · rw [h, coarseStride_self, exp2_two]
    exact zero_le_one
  · rw [coarseStride_of_ne h, exp2_one]

/-- A projection onto the coarse cells is always converted. -/
theorem convertToSubgrid_projectOnto (dir : Axis) (s : Subgrid) :
    convertToSubgrid (projectOnto dir cIndex s) = some (converted (projectOnto dir cIndex s)) := by
  obtain ⟨hx, hy, hz, -⟩ := projectOnto_strides dir cIndex s
  apply convertToSubgrid_eq (isAligned_projectOnto dir s)
  · rw [hx]
    exact exp2_coarseStride dir .x
  · rw [hy]
    exact exp2_coarseStride dir .y
  · rw [hz]
    exact exp2_coarseStride dir .z

def coarseSubgrid (dir : Axis) (s : Subgrid) : Subgrid := converted (projectOnto dir cIndex s)

theorem coarsenSubgrids_eq (dir : Axis) (subgrids : SubgridArray) :
    coarsenSubgrids dir subgrids = some (subgrids.map (coarseSubgrid dir)) := by
  unfold coarsenSubgrids
  simp only [convertToSubgrid_projectOnto]
  exact List.mapM_pure

/-! ## Coarse subgrids -/

theorem isCoarse_coarseSubgrid (hs : ∀ a, 0 ≤ s.lo a) : IsCoarse dir s (coarseSubgrid dir s) := by
  obtain ⟨hx, hy, hz, hprocess⟩ := projectOnto_strides dir cIndex s
  refine ⟨hprocess, fun c => ?_⟩
  unfold coarseSubgrid
  rw [mem_cells_converted (isAligned_projectOnto dir s), hx, hy, hz]
  have heven : 2 ∣ dir.coord (double dir c) + cIndex := by
    rw [coord_double, coarseStride_self]
    exact Dvd.intro _ (add_zero _).symm
  exact (mem_points_projectOnto (c := double dir c) hs le_rfl).trans (and_iff_left heven)

theorem coarseSubgrid_lo_nonneg (hs : ∀ a, 0 ≤ s.lo a) (a : Axis) : 0 ≤ (coarseSubgrid dir s).lo a := by
  have hpos := fun a => (coarseStride_pos dir a).le
  have hlo : 0 ≤ (projectOnto dir cIndex s).lo a := by
    rw [projectOnto_lo]
    have hsum : 0 ≤ s.lo a + (a.coord (coarseStride dir) - 1) := by
      have := hs a
      have := coarseStride_pos dir a
      omega
    exact mul_nonneg (Int.tdiv_nonneg hsum (hpos a)) (hpos a)
  obtain ⟨hx, hy, hz, -⟩ := projectOnto_strides dir cIndex s
  cases a with
  | x => exact Int.tdiv_nonneg hlo (hx ▸ hpos .x)
  | y => exact Int.tdiv_nonneg hlo (hy ▸ hpos .y)
  | z => exact Int.tdiv_nonneg hlo (hz ▸ hpos .z)

theorem IsPartition.coarsen (h : IsPartition subgrids) (dir : Axis) : IsPartition (subgrids.map (coarseSubgrid dir)) := by
  constructor
  · intro t ht
    obtain ⟨s, hs, rfl⟩ := List.mem_map.mp ht
    exact coarseSubgrid_lo_nonneg (h.nonneg s hs)
  · rw [List.pairwise_map]
    refine h.disjoint.imp_of_mem fun {s t} hs ht hdisjoint => ?_
    rw [Finset.disjoint_left] at hdisjoint ⊢
    intro c hc hc'
    exact hdisjoint (((isCoarse_coarseSubgrid (h.nonneg s hs)).2 c).mp hc)
      (((isCoarse_coarseSubgrid (h.nonneg t ht)).2 c).mp hc')

/-! ## All levels -/

theorem isCoarsening (h : IsPartition subgrids) (myProc : ℤ) (dir : Axis) :
    IsCoarsening myProc dir (gridOn subgrids myProc) (gridOn (subgrids.map (coarseSubgrid dir)) myProc)
      ((gridOn subgrids myProc).subgrids.map (projectOnto dir fIndex))
      ((gridOn subgrids myProc).subgrids.map (projectOnto dir cIndex)) where
  fine_subgrids := rfl
  coarse_subgrids := rfl
  fine_partition := h
  coarse_partition := h.coarsen dir
  coarse_cells := by
    show List.Forall₂ (IsCoarse dir) subgrids (subgrids.map (coarseSubgrid dir))
    rw [List.forall₂_map_right_iff, List.forall₂_same]
    exact fun s hs => isCoarse_coarseSubgrid (h.nonneg s hs)
  lengths := ⟨List.length_map _, List.length_map _⟩
  splits := by
    rw [List.zip_map', List.forall₂_map_right_iff, List.forall₂_same]
    exact fun s hs => splitsInto_projectOnto (h.nonneg s (List.mem_of_mem_filter hs))

theorem coarsenGrid_cons {myProc : ℤ} {coarsenL : List Axis} {levels : GridLevels}
    (h : coarsenGrid myProc (gridOn (subgrids.map (coarseSubgrid dir)) myProc) coarsenL = some levels) :
    coarsenGrid myProc (gridOn subgrids myProc) (dir :: coarsenL) =
      some ⟨gridOn subgrids myProc :: levels.gridL,
        (gridOn subgrids myProc).subgrids.map (projectOnto dir fIndex) :: levels.fSraL,
        (gridOn subgrids myProc).subgrids.map (projectOnto dir cIndex) :: levels.cSraL⟩ := by
  have hsubgrids : coarsenSubgrids dir (gridOn subgrids myProc).allSubgrids = some (subgrids.map (coarseSubgrid dir)) :=
    coarsenSubgrids_eq dir subgrids
  rw [coarsenGrid, hsubgrids, Option.bind_eq_bind, Option.bind_some, h]
  rfl

/-- For every process and all directions, one after the other, each level is a coarsening of the one before. -/
theorem coarsenGrid_exact (subgrids : SubgridArray) (h : IsPartition subgrids) (myProc : ℤ) (coarsenL : List Axis) :
    ∃ levels, coarsenGrid myProc (gridOn subgrids myProc) coarsenL = some levels ∧
      levels.gridL.length = coarsenL.length + 1 ∧ levels.fSraL.length = coarsenL.length ∧
      levels.cSraL.length = coarsenL.length ∧ levels.gridL[0]? = some (gridOn subgrids myProc) ∧
      ∀ l dir, coarsenL[l]? = some dir → ∃ fine coarse fSra cSra, levels.gridL[l]? = some fine ∧
        levels.gridL[l + 1]? = some coarse ∧ levels.fSraL[l]? = some fSra ∧ levels.cSraL[l]? = some cSra ∧
        IsCoarsening myProc dir fine coarse fSra cSra := by
  induction coarsenL generalizing subgrids with
  | nil => exact ⟨_, rfl, rfl, rfl, rfl, rfl, fun l dir hl => absurd hl (by simp)⟩
  | cons dir coarsenL ih =>
    obtain ⟨levels, hlevels, hgrid, hf, hc, hfirst, hall⟩ := ih _ (h.coarsen dir)
    refine ⟨_, coarsenGrid_cons hlevels, ?_, ?_, ?_, rfl, ?_⟩
    · exact congrArg (· + 1) hgrid
    · exact congrArg (· + 1) hf
    · exact congrArg (· + 1) hc
    · intro l dir' hl
      cases l with
      | zero =>
        obtain rfl := Option.some.inj hl
        exact ⟨_, _, _, _, rfl, hfirst, rfl, rfl, isCoarsening h myProc dir⟩
      | succ l => exact hall l dir' hl

end

/-- Three cells on one process, and one behind them with an odd index on another. -/
def fourCells : SubgridArray := [newSubgrid 0 0 0 3 1 1 0 0 0 0, newSubgrid 3 0 0 1 1 1 0 0 0 1]

theorem fourCells_isPartition : IsPartition fourCells := by
  constructor
  · intro s hs a
    rcases List.mem_cons.mp hs with rfl | hs
    · cases a <;> decide
    · obtain rfl := List.mem_singleton.mp hs
      cases a <;> decide
  · exact List.pairwise_cons.mpr ⟨fun t ht => by
      obtain rfl := List.mem_singleton.mp ht
      decide, List.pairwise_singleton _ _⟩

/-- The subgrid of the last cell vanishes. -/
theorem fourCells_exact : ∃ levels, coarsenGrid 1 (gridOn fourCells 1) [.x, .x] = some levels ∧
    levels.gridL.length = 2 + 1 ∧ levels.fSraL.length = 2 ∧ levels.cSraL.length = 2 ∧
    levels.gridL[0]? = some (gridOn fourCells 1) ∧ ∀ l dir, [Axis.x, .x][l]? = some dir → ∃ fine coarse fSra cSra,
      levels.gridL[l]? = some fine ∧ levels.gridL[l + 1]? = some coarse ∧ levels.fSraL[l]? = some fSra ∧
      levels.cSraL[l]? = some cSra ∧ IsCoarsening 1 dir fine coarse fSra cSra :=
  coarsenGrid_exact fourCells fourCells_isPartition 1 [.x, .x]

end ParFlow
