import ParFlow.Lib.TruncDiv
import ParFlow.Grid.SubgridCells
import ParFlow.Geom.OctreeVisits
import ParFlow.Geom.OctreeSplit

/-! The loop over an octree with strides. At the level of interest a cell is selected by a remainder, in a larger leaf
by rounded bounds, and the two select the same cells only when the offset of the region fits the stride. -/

namespace ParFlow.Geom

open FuelRun TreeWalk IntLoop GrGeomOctree TruncDiv

/-! ## The loop -/

/-- The loop does not stop at branches. -/
def octreeLoop {β : Type} (valueTest : GrGeomOctree → Bool) (levelBody leafBody : NodeBody β) : Walk GrGeomOctree Origin β :=
  octreeLoopTemplate (fun _ => false) valueTest levelBody leafBody

/-- The level body: the cell is in the region, and a number of strides away from its lower corner. -/
def strideLevelBody (region : Subgrid) (stride : Cell) : NodeBody Cell := fun _ p =>
  if (p.cell.1 ≥ region.ix ∧ p.cell.1 < region.ix + region.nx) ∧
      (p.cell.2.1 ≥ region.iy ∧ p.cell.2.1 < region.iy + region.ny) ∧
      (p.cell.2.2 ≥ region.iz ∧ p.cell.2.2 < region.iz + region.nz) ∧
      (p.cell.1 - region.ix).tmod stride.1 = 0 ∧
      (p.cell.2.1 - region.iy).tmod stride.2.1 = 0 ∧
      (p.cell.2.2 - region.iz).tmod stride.2.2 = 0 then
    [p.cell]
  else []

/-- A bound projected onto the strided index space. -/
def projectBound (offset stride bound : ℤ) : ℤ := (bound + offset + (stride - 1)).tdiv stride * stride - offset

/-- The indices of one axis that a leaf from `i` on runs over. -/
def strideIndices (offset size stride i inc : ℤ) : List ℤ :=
  uptoBy (projectBound offset stride (max offset i)) (projectBound offset stride (min (offset + size) (i + inc))) stride

def strideLeafBody (region : Subgrid) (stride : Cell) : NodeBody Cell := fun _ p =>
  nest (strideIndices region.iz region.nz stride.2.2 p.cell.2.2 p.inc)
    (strideIndices region.iy region.ny stride.2.1 p.cell.2.1 p.inc)
    (strideIndices region.ix region.nx stride.1 p.cell.1 p.inc)

def octreeNodeLoop2 (fuel : ℕ) (start : Cell) (octree : GrGeomOctree) (level : ℕ) (region : Subgrid) (stride : Cell)
    (valueTest : GrGeomOctree → Bool) : Except Fault (List Cell) :=
  (octreeLoop valueTest (strideLevelBody region stride) (strideLeafBody region stride)).walk level fuel octree
    ⟨start, 2 ^ level⟩

/-! ## One axis -/

section Axis

variable {offset size s lo hi i inc x : ℤ}

/-- What a leaf selects: the class of the indices is that of the negative offset. -/
theorem mem_projected (hs : 0 < s) : x ∈ uptoBy (projectBound offset s lo) (projectBound offset s hi) s ↔
    s ∣ x + offset ∧ moved (lo + offset) s ≤ x + offset ∧ x + offset < moved (hi + offset) s := by
  have hdvd : s ∣ x - projectBound offset s lo ↔ s ∣ x + offset := by
    unfold projectBound
    rw [sub_sub_eq_add_sub]
    exact dvd_sub_left (Dvd.intro_left _ rfl)
  rw [mem_uptoBy hs, hdvd]
  constructor
  · rintro ⟨hlo, hhi, q, hq⟩
    unfold projectBound at hlo hhi
    rw [mul_comm] at hq
    refine ⟨⟨q, by rw [hq, mul_comm]⟩, ?_, ?_⟩
    · rw [hq, ← tdiv_le_iff hs]
      exact le_of_mul_le_mul_right (by omega) hs
    · rw [hq, ← lt_tdiv_iff hs]
      exact lt_of_mul_lt_mul_right (by omega) hs.le
  · rintro ⟨⟨q, hq⟩, hlo, hhi⟩
    rw [mul_comm] at hq
    rw [hq, ← tdiv_le_iff hs] at hlo
    rw [hq, ← lt_tdiv_iff hs] at hhi
    have hlo := mul_le_mul_of_nonneg_right hlo hs.le
    have hhi := mul_lt_mul_of_pos_right hhi hs
    unfold projectBound
    exact ⟨by omega, by omega, q, by rw [hq, mul_comm]⟩

/-- The offset is no obstacle: the stride is one, or the offset is not negative and twice the offset is a number of strides. -/
def FitsStride (offset s : ℤ) : Prop := s = 1 ∨ 0 ≤ offset ∧ s ∣ 2 * offset

theorem dvd_add_iff_sub (h : s ∣ 2 * offset) : s ∣ x + offset ↔ s ∣ x - offset := by
  have hsum : x + offset = x - offset + 2 * offset := by ring
  rw [hsum]
  exact Int.dvd_add_left h

/-- Then a leaf selects the indices that the remainder selects. -/
theorem mem_strideIndices (hs : 0 < s) (hfits : FitsStride offset s) : x ∈ strideIndices offset size s i inc ↔
    (max offset i ≤ x ∧ x < min (offset + size) (i + inc)) ∧ s ∣ x - offset := by
  unfold strideIndices
  rw [mem_projected hs]
  have hlo : offset ≤ max offset i := le_max_left _ _
  generalize max offset i = lo at hlo
  generalize min (offset + size) (i + inc) = hi
  rcases hfits with rfl | ⟨hoffset, hdvd⟩
  · rw [moved_one, moved_one]
    simp only [one_dvd, true_and, and_true]
    omega
  · have hmoved : moved (lo + offset) s = lo + offset := moved_of_not (not_overshoots_of_pos (by omega))
    rw [dvd_add_iff_sub hdvd, hmoved]
    by_cases hhi : -s < hi + offset
    · rw [moved_of_not (not_overshoots_of_pos hhi)]
      constructor
      · rintro ⟨h1, h2, h3⟩
        exact ⟨⟨by omega, by omega⟩, h1⟩
      · rintro ⟨⟨h2, h3⟩, h1⟩
        exact ⟨h1, by omega, by omega⟩
    · -- the leaf ends before the region begins
      have hle := moved_le (t := hi + offset) hs
      constructor
      · rintro ⟨-, h2, h3⟩
        omega
      · rintro ⟨⟨h2, h3⟩, -⟩
        omega

/-- The first index of the region is selected by a leaf there only when the offset fits. -/
theorem fitsStride_of_mem (hs : 0 < s) (h : offset ∈ strideIndices offset size s offset inc) : FitsStride offset s := by
  unfold strideIndices at h
  rw [max_self, mem_projected hs] at h
  obtain ⟨hdvd, hmoved, -⟩ := h
  have hnot : ¬ Overshoots (offset + offset) s := by
    intro hover
    rw [moved_of_overshoots hover] at hmoved
    omega
  have htwo : s ∣ 2 * offset := by rwa [two_mul]
  by_cases hneg : 0 ≤ offset
  · exact Or.inr ⟨hneg, htwo⟩
  · -- a negative number of strides, plus less than a stride
    left
    obtain ⟨q, hq⟩ := hdvd
    have hq0 : q < 0 := by
      by_contra hq0
      have := mul_nonneg hs.le (not_lt.mp hq0)
      omega
    have hle : s * q ≤ -s := by nlinarith
    have hmod : s ∣ offset + offset + (s - 1) := by
      by_contra hmod
      exact hnot ⟨by omega, hmod⟩
    have hone : s ∣ 1 := by
      have hsub := Int.dvd_sub (Dvd.intro (q + 1) rfl : s ∣ s * (q + 1)) hmod
      have heq : s * (q + 1) - (offset + offset + (s - 1)) = 1 := by rw [hq]; ring
      rwa [heq] at hsub
    exact Int.eq_one_of_dvd_one hs.le hone

theorem strideIndices_empty (hs : 0 < s) (hsize : size ≤ 0) : x ∉ strideIndices offset size s i inc := by
  unfold strideIndices
  rw [mem_projected hs]
  rintro ⟨⟨q, hq⟩, hlo, hhi⟩
  have hle : min (offset + size) (i + inc) ≤ max offset i :=
    (min_le_left _ _).trans ((by omega : offset + size ≤ offset).trans (le_max_left _ _))
  have hbounds := Int.tdiv_le_tdiv hs (add_le_add_left (add_le_add_left hle offset) (s - 1))
  rw [hq, mul_comm, ← tdiv_le_iff hs] at hlo
  rw [hq, mul_comm, ← lt_tdiv_iff hs] at hhi
  omega

end Axis

/-! ## Selected cells -/

section Selection

variable {region : Subgrid} {stride o c : Cell} {inc : ℤ} {node : GrGeomOctree} {n : ℕ}

def PositiveStride (stride : Cell) : Prop := ∀ a : Axis, 0 < a.coord stride

/-- The cells that the remainders select. -/
def StrideCell (region : Subgrid) (stride : Cell) (c : Cell) : Prop :=
  c ∈ region.cells ∧ ∀ a : Axis, a.coord stride ∣ a.coord c - region.lo a

theorem mem_strideLevelBody : c ∈ strideLevelBody region stride node ⟨o, inc⟩ ↔ StrideCell region stride c ∧ c = o := by
  unfold strideLevelBody StrideCell
  rw [Subregion.mem_cells_iff, Axis.forall]
  split_ifs with h
  · rw [← Int.dvd_iff_tmod_eq_zero, ← Int.dvd_iff_tmod_eq_zero, ← Int.dvd_iff_tmod_eq_zero] at h
    rw [List.mem_singleton]
    constructor
    · rintro rfl
      exact ⟨⟨⟨h.1, h.2.1, h.2.2.1⟩, h.2.2.2⟩, rfl⟩
    · exact And.right
  · apply iff_of_false List.not_mem_nil
    rintro ⟨⟨⟨hx, hy, hz⟩, hdvd⟩, rfl⟩
    apply h
    rw [← Int.dvd_iff_tmod_eq_zero, ← Int.dvd_iff_tmod_eq_zero, ← Int.dvd_iff_tmod_eq_zero]
    exact ⟨hx, hy, hz, hdvd⟩

theorem mem_strideLeafBody : c ∈ strideLeafBody region stride node ⟨o, inc⟩ ↔
    ∀ a : Axis, a.coord c ∈ strideIndices (region.lo a) (region.num a) (a.coord stride) (a.coord o) inc := by
  unfold strideLeafBody
  rw [mem_nest, Axis.forall]
  rfl

/-- The region is empty, or its lower corner fits the strides. -/
def FitsStrides (region : Subgrid) (stride : Cell) : Prop :=
  ¬ region.NonEmpty ∨ ∀ a : Axis, FitsStride (region.lo a) (a.coord stride)

/-- A larger leaf selects the cells in it that would be selected at the level of interest. -/
theorem strideLeafBody_selects (hs : PositiveStride stride) (hfits : FitsStrides region stride) :
    c ∈ strideLeafBody region stride node ⟨o, inc⟩ ↔ StrideCell region stride c ∧ InCube o inc c := by
  rw [mem_strideLeafBody]
  unfold StrideCell
  rw [Subregion.mem_cells_axis]
  rcases hfits with hempty | hfits
  · have haxis : ∃ a, region.num a ≤ 0 := by
      rw [Subregion.nonEmpty_axis] at hempty
      simpa using hempty
    obtain ⟨a, ha⟩ := haxis
    apply iff_of_false
    · exact fun h => strideIndices_empty (hs a) ha (h a)
    · rintro ⟨⟨h, -⟩, -⟩
      have := h a
      omega
  · have hcube : InCube o inc c ↔ ∀ a : Axis, a.coord o ≤ a.coord c ∧ a.coord c < a.coord o + inc := by
      rw [Axis.forall]
      rfl
    rw [hcube, ← forall_and, ← forall_and]
    apply forall_congr'
    intro a
    rw [mem_strideIndices (hs a) (hfits a), max_le_iff, lt_min_iff]
    tauto

/-- Both ways of the loop select the same cells of a leaf. -/
def SelectsAlike (region : Subgrid) (stride : Cell) : Prop :=
  ∀ node o n c, c ∈ strideLeafBody region stride node ⟨o, 2 ^ (n + 1)⟩ ↔
    InCube o (2 ^ (n + 1)) c ∧ c ∈ strideLevelBody region stride node ⟨c, 1⟩

theorem selectsAlike_iff (hs : PositiveStride stride) : SelectsAlike region stride ↔ FitsStrides region stride := by
  unfold SelectsAlike
  constructor
  · intro h
    by_cases hne : region.NonEmpty
    · right
      -- a leaf at the lower corner of the region
      have hcorner : StrideCell region stride (Axis.cell region.lo) := by
        constructor
        · rw [Subregion.mem_cells_axis]
          intro a
          have := Subregion.nonEmpty_axis.mp hne a
          rw [Axis.coord_cell]
          omega
        · intro a
          rw [Axis.coord_cell, sub_self]
          exact dvd_zero _
      have hcube : InCube (Axis.cell region.lo) (2 ^ (0 + 1)) (Axis.cell region.lo) := by
        unfold InCube
        omega
      have hleaf := (h (.leaf ⟨false, false, false, false⟩ 0) (Axis.cell region.lo) 0 (Axis.cell region.lo)).mpr
        ⟨hcube, mem_strideLevelBody.mpr ⟨hcorner, rfl⟩⟩
      rw [mem_strideLeafBody] at hleaf
      intro a
      have ha := hleaf a
      rw [Axis.coord_cell] at ha
      exact fitsStride_of_mem (hs a) ha
    · exact Or.inl hne
  · intro hfits node o n c
    rw [strideLeafBody_selects hs hfits, mem_strideLevelBody, and_iff_left rfl, and_comm]

end Selection

/-! ## Visited cells -/

section Visits

variable {region : Subgrid} {stride : Cell}

/-- The value test accepts what the octree holds at a cell. -/
def AcceptsCell (valueTest : GrGeomOctree → Bool) (octree : GrGeomOctree) (level : ℕ) (start : Cell) : Cell → Prop :=
  Occurs (fun _ => false) valueTest (fun _ c => [c]) level octree start

theorem octreeNodeLoop2_visits (hs : PositiveStride stride) (hfits : FitsStrides region stride) (start : Cell)
    (octree : GrGeomOctree) (level : ℕ) (valueTest : GrGeomOctree → Bool) :
    ∃ out, Returns (fun fuel => octreeNodeLoop2 fuel start octree level region stride valueTest) out ∧
      ∀ c, c ∈ out ↔ StrideCell region stride c ∧ AcceptsCell valueTest octree level start c := by
  refine ⟨_, Walk.walk_returns (restores _ _) level octree ⟨start, 2 ^ level⟩ rfl, fun c => ?_⟩
  apply mem_visits_iff (StrideCell region stride)
  · intro node o b
    rw [mem_strideLevelBody, List.mem_singleton]
  · intro node n o b
    rw [strideLeafBody_selects hs hfits]
    constructor
    · rintro ⟨hb, hcube⟩
      exact ⟨hb, b, hcube, List.mem_singleton_self b⟩
    · rintro ⟨hb, c, hcube, hc⟩
      rw [List.mem_singleton.mp hc]
      exact ⟨List.mem_singleton.mp hc ▸ hb, hcube⟩

/-- The loop visits the same cells of octrees that hold the same, however they are refined. -/
def VisitsAlike (region : Subgrid) (stride : Cell) : Prop :=
  ∀ level start octree octree' valueTest valueTest',
    (∀ c, AcceptsCell valueTest octree level start c ↔ AcceptsCell valueTest' octree' level start c) →
    ∃ out out', Returns (fun fuel => octreeNodeLoop2 fuel start octree level region stride valueTest) out ∧
      Returns (fun fuel => octreeNodeLoop2 fuel start octree' level region stride valueTest') out' ∧ ∀ c, c ∈ out ↔ c ∈ out'

theorem visitsAlike_of_fits (hs : PositiveStride stride) (hfits : FitsStrides region stride) : VisitsAlike region stride := by
  intro level start octree octree' valueTest valueTest' hsame
  obtain ⟨out, hret, hmem⟩ := octreeNodeLoop2_visits hs hfits start octree level valueTest
  obtain ⟨out', hret', hmem'⟩ := octreeNodeLoop2_visits hs hfits start octree' level valueTest'
  refine ⟨out, out', hret, hret', fun c => ?_⟩
  rw [hmem, hmem', hsame]

/-- Both ways of selecting cells agree, and what is visited does not depend on the refinement, exactly when the lower
corner of the region fits the strides. -/
theorem nodeLoop2_alike_iff (region : Subgrid) (stride : Cell) (hs : PositiveStride stride) :
    SelectsAlike region stride ∧ VisitsAlike region stride ↔ FitsStrides region stride := by
  rw [selectsAlike_iff hs, and_iff_left_iff_imp]
  exact visitsAlike_of_fits hs

theorem evenStride_alike : SelectsAlike (newSubgrid 3 0 4 5 5 5 0 0 0 0) (2, 7, 4) ∧
    VisitsAlike (newSubgrid 3 0 4 5 5 5 0 0 0 0) (2, 7, 4) := by
  have hs : PositiveStride (2, 7, 4) := by
    unfold PositiveStride
    rw [Axis.forall]
    decide
  apply (nodeLoop2_alike_iff (newSubgrid 3 0 4 5 5 5 0 0 0 0) (2, 7, 4) hs).mpr
  right
  rw [Axis.forall]
  unfold FitsStride
  decide

/-- From 1 on in steps of three, the remainder selects 1 and a leaf selects 2. -/
theorem oddStride_not_alike : ¬ ∀ region stride, PositiveStride stride →
    SelectsAlike region stride ∧ VisitsAlike region stride := by
  intro h
  have hs : PositiveStride (3, 1, 1) := by
    unfold PositiveStride
    rw [Axis.forall]
    decide
  have halike := (h (newSubgrid 1 0 0 3 1 1 0 0 0 0) (3, 1, 1) hs).1 (.leaf ⟨false, false, true, false⟩ 0) (0, 0, 0) 1 (2, 0, 0)
  have hleaf : (2, 0, 0) ∈ strideLeafBody (newSubgrid 1 0 0 3 1 1 0 0 0 0) (3, 1, 1) (.leaf ⟨false, false, true, false⟩ 0)
      ⟨(0, 0, 0), 2 ^ (1 + 1)⟩ := by decide
  have hlevel : (2, 0, 0) ∉ strideLevelBody (newSubgrid 1 0 0 3 1 1 0 0 0 0) (3, 1, 1)
      (.leaf ⟨false, false, true, false⟩ 0) ⟨(2, 0, 0), 1⟩ := by decide
  exact hlevel (halike.mp hleaf).2

end Visits

end ParFlow.Geom

/-! The loop over the faces of an octree, after the flags of its branch nodes were set. The walk leaves out the branches
that are not flagged as inside, and no face is lost with them. -/

namespace ParFlow.Geom

open FuelRun GrGeomOctree

variable {n : ℕ} {t t' node : GrGeomOctree} {o c : Cell} {f : Face}

/-! ## The node of a cell -/

/-- The node that holds the cell at the level of interest: a leaf of any size, or a branch at that level. -/
def NodeAt (n : ℕ) (t : GrGeomOctree) (o c : Cell) (node : GrGeomOctree) : Prop :=
  Occurs (fun _ => false) (fun _ => true) (fun node c => [(c, node)]) n t o (c, node)

theorem nodeAt_zero : NodeAt 0 t o c node ↔ c = o ∧ node = t := by
  simp only [NodeAt, Occurs, List.mem_singleton, Prod.mk.injEq, true_and]

theorem nodeAt_leaf {flags : NodeFlags} {faces : BitVec 8} :
    NodeAt (n + 1) (leaf flags faces) o c node ↔ InCube o (2 ^ (n + 1)) c ∧ node = leaf flags faces := by
  simp only [NodeAt, Occurs, nodeIsLeaf, Bool.true_or, if_true, true_and, List.mem_singleton, Prod.mk.injEq]
  constructor
  · rintro ⟨d, hd, rfl, rfl⟩
    exact ⟨hd, rfl⟩
  · rintro ⟨hc, rfl⟩
    exact ⟨c, hc, rfl, rfl⟩

theorem nodeAt_branch {flags : NodeFlags} {faces : BitVec 8} {children : Fin 8 → GrGeomOctree} :
    NodeAt (n + 1) (branch flags faces children) o c node ↔ ∃ m : Fin 8, NodeAt n (children m) (octantCorner n o m) c node := by
  simp only [NodeAt, Occurs, nodeIsLeaf, Bool.or_false, Bool.false_eq_true, if_false]
  constructor
  · rintro ⟨m, hm, h⟩
    rw [child, dif_pos (show m < numChildren from hm)] at h
    exact ⟨⟨m, hm⟩, h⟩
  · rintro ⟨m, h⟩
    refine ⟨m, m.isLt, ?_⟩
    rw [child, dif_pos (show m.val < numChildren from m.isLt)]
    exact h

/-- The leaves below the node are leaves of the octree. -/
theorem NodeAt.hasLeaf {p : NodeFlags → Prop} (h : NodeAt n t o c node) (hp : HasLeaf p node) : HasLeaf p t := by
  induction n generalizing t o with
  | zero => exact (nodeAt_zero.mp h).2 ▸ hp
  | succ n ih =>
    cases t with
    | leaf flags faces => exact (nodeAt_leaf.mp h).2 ▸ hp
    | branch flags faces children =>
      obtain ⟨m, hm⟩ := nodeAt_branch.mp h
      exact ⟨m, ih hm⟩

/-! ## Faces -/

theorem SameLeaves.hasFace (h : SameLeaves t t') (f : Face) : t'.hasFace f = t.hasFace f := by
  cases t with
  | leaf flags faces =>
    cases t' with
    | leaf flags' faces' => rw [hasFace, hasFace, GrGeomOctree.faces, GrGeomOctree.faces, h.2]
    | branch flags' faces' children' => exact absurd h id
  | branch flags faces children =>
    cases t' with
    | leaf flags' faces' => exact absurd h id
    | branch flags' faces' children' => rw [hasFace, hasFace, GrGeomOctree.faces, GrGeomOctree.faces, h.1]

/-- A node is flagged as inside when it has such a leaf. -/
theorem nodeIsInside_iff (hsame : SameLeaves t t') (htells : ForBranches TellsBoundary t') :
    t'.nodeIsInside ↔ HasLeaf (fun f => f.inside) t := by
  rw [← hsame.hasLeaf]
  cases t' with
  | leaf flags faces => exact Iff.rfl
  | branch flags faces children => exact htells.1.1

theorem mem_nodeFaces {d : Cell} :
    (c, f) ∈ (Face.all.filter node.hasFace).map (fun f => (d, f)) ↔ c = d ∧ node.hasFace f := by
  have hall : f ∈ Face.all := by cases f <;> decide
  simp only [List.mem_map, List.mem_filter, Prod.mk.injEq]
  constructor
  · rintro ⟨g, ⟨-, hg⟩, rfl, rfl⟩
    exact ⟨rfl, hg⟩
  · rintro ⟨rfl, hf⟩
    exact ⟨f, ⟨hall, hf⟩, rfl, rfl⟩

/-- The faces that are reached through branches flagged as inside are those of all nodes with inside leaves. -/
theorem faceOf_iff (hsame : SameLeaves t t') (htells : ForBranches TellsBoundary t') :
    FaceOf t' n o (c, f) ↔ ∃ node, NodeAt n t o c node ∧ HasLeaf (fun f => f.inside) node ∧ node.hasFace f := by
  induction n generalizing t t' o with
  | zero =>
    simp only [FaceOf, Occurs, mem_nodeFaces, nodeIsInside_iff hsame htells, hsame.hasFace, nodeAt_zero]
    constructor
    · rintro ⟨hin, hc, hf⟩
      exact ⟨t, ⟨hc, rfl⟩, hin, hf⟩
    · rintro ⟨node, ⟨hc, rfl⟩, hin, hf⟩
      exact ⟨hin, hc, hf⟩
  | succ n ih =>
    have hinside := nodeIsInside_iff hsame htells
    cases t with
    | leaf flags faces =>
      cases t' with
      | branch flags' faces' children' => exact absurd hsame id
      | leaf flags' faces' =>
        simp only [FaceOf, Occurs, mem_nodeFaces, hinside, hsame.hasFace, nodeAt_leaf, nodeIsLeaf, Bool.true_or, if_true]
        constructor
        · rintro ⟨hin, d, hd, rfl, hf⟩
          exact ⟨_, ⟨hd, rfl⟩, hin, hf⟩
        · rintro ⟨node, ⟨hc, rfl⟩, hin, hf⟩
          exact ⟨hin, c, hc, rfl, hf⟩
    | branch flags faces children =>
      cases t' with
      | leaf flags' faces' => exact absurd hsame id
      | branch flags' faces' children' =>
        have hchild : ∀ m : ℕ, ∀ hm : m < 8, FaceOf ((branch flags' faces' children').child m) n (octantCorner n o m) (c, f) ↔
            ∃ node, NodeAt n (children ⟨m, hm⟩) (octantCorner n o m) c node ∧ HasLeaf (fun f => f.inside) node ∧
              node.hasFace f := by
          intro m hm
          rw [child, dif_pos (show m < numChildren from hm)]
          exact ih (hsame.2 ⟨m, hm⟩) (htells.2 ⟨m, hm⟩)
        rw [FaceOf, Occurs]
        by_cases hin : (branch flags' faces' children').nodeIsInside
        · rw [if_neg (by simp [nodeIsLeaf, hin])]
          constructor
          · rintro ⟨m, hm, h⟩
            obtain ⟨node, hnode, h⟩ := (hchild m hm).mp h
            exact ⟨node, nodeAt_branch.mpr ⟨⟨m, hm⟩, hnode⟩, h⟩
          · rintro ⟨node, hnode, h⟩
            obtain ⟨m, hm⟩ := nodeAt_branch.mp hnode
            exact ⟨m, m.isLt, (hchild m m.isLt).mpr ⟨node, hm, h⟩⟩
        · -- the branch is left out, and has no leaf that is inside
          rw [if_pos (by simp [hin])]
          apply iff_of_false
          · exact fun h => hin h.1
          · rintro ⟨node, hnode, hleaf, -⟩
            exact hin (hinside.mpr (hnode.hasLeaf hleaf))

/-! ## The loop -/

/-- What the loop runs its body with: each face of a node with inside leaves, at each cell of the node in the region. -/
def VisitsInsideFaces (octree : GrGeomOctree) (level : ℕ) (start : Cell) (region : Subgrid) (out : List (Cell × Face)) : Prop :=
  out.Nodup ∧ ∀ c f, (c, f) ∈ out ↔ c ∈ region.cells ∧
    ∃ node, NodeAt level octree start c node ∧ HasLeaf (fun f => f.inside) node ∧ node.hasFace f

theorem faceLoop_visits (octree : GrGeomOctree) (level maxLevel : ℕ) (start : Cell) (region : Subgrid) :
    ∃ octree' out, Returns (fun fuel => octreeSetBranchNodeFlags fuel octree maxLevel) octree' ∧
      Returns (fun fuel => octreeFaceLoop fuel start octree' level region) out ∧
      VisitsInsideFaces octree level start region out := by
  obtain ⟨octree', hret, hflagged⟩ := setBranchNodeFlags_flagged octree maxLevel
  obtain ⟨out, hout, hnd, hmem⟩ := octreeFaceLoop_selects start octree' level region
  refine ⟨octree', out, hret, hout, hnd, fun c f => ?_⟩
  rw [hmem, faceOf_iff hflagged.same hflagged.boundary]

/-- A leaf at depth `n`, which is a single cell. -/
def FinestLeaf : ℕ → GrGeomOctree → Cell → Cell → GrGeomOctree → Prop
  | 0, t, o, c, node => t.nodeIsLeaf ∧ c = o ∧ node = t
  | n + 1, t, o, c, node => ¬ t.nodeIsLeaf ∧ ∃ m < 8, FinestLeaf n (t.child m) (octantCorner n o m) c node

/-- Only the faces of single cells are visited. -/
def VisitsFinestFaces (octree : GrGeomOctree) (level : ℕ) (start : Cell) (region : Subgrid) (out : List (Cell × Face)) : Prop :=
  out.Nodup ∧ ∀ c f, (c, f) ∈ out ↔ c ∈ region.cells ∧
    ∃ node, FinestLeaf level octree start c node ∧ node.nodeIsInside ∧ node.hasFace f

/-- A leaf with side two and a face on the left is visited at each of its cells. -/
theorem coarseLeaf_visited : ¬ ∀ octree level maxLevel start region octree' out,
    Returns (fun fuel => octreeSetBranchNodeFlags fuel octree maxLevel) octree' →
    Returns (fun fuel => octreeFaceLoop fuel start octree' level region) out → VisitsFinestFaces octree level start region out := by
  intro h
  have hflags : Returns (fun fuel => octreeSetBranchNodeFlags fuel (leaf ⟨false, false, true, false⟩ 1) 1)
      (leaf ⟨false, false, true, false⟩ 1) := octreeSetBranchNodeFlags_returns _ 1
  obtain ⟨out, hout, -, hmem⟩ := octreeFaceLoop_selects (0, 0, 0) (leaf ⟨false, false, true, false⟩ 1) 1
    (newSubgrid 0 0 0 2 2 2 0 0 0 0)
  obtain ⟨-, hfinest⟩ := h _ 1 1 _ _ _ _ hflags hout
  have hface : ((0, 0, 0), Face.L) ∈ out := by
    have hsame : SameLeaves (leaf ⟨false, false, true, false⟩ 1) (leaf ⟨false, false, true, false⟩ 1) := ⟨rfl, rfl⟩
    rw [hmem, faceOf_iff hsame trivial]
    refine ⟨by decide, leaf ⟨false, false, true, false⟩ 1, nodeAt_leaf.mpr ⟨?_, rfl⟩, rfl, by decide⟩
    unfold InCube
    decide
  obtain ⟨-, node, hleaf, -⟩ := (hfinest _ _).mp hface
  exact hleaf.1 rfl

end ParFlow.Geom
