import ParFlow.Lib.BlockSplit
import ParFlow.Lib.Strided
import ParFlow.Grid.GridDefs
import ParFlow.Grid.SubgridCells

/-! The subgrids of a process layout tile the user grid. -/

namespace ParFlow

open IntLoop Cover BlockSplit

/-- The neighbouring cell along an axis. -/
def Axis.next : Axis → Cell → Cell
  | .x, c => (c.1 + 1, c.2.1, c.2.2)
  | .y, c => (c.1, c.2.1 + 1, c.2.2)
  | .z, c => (c.1, c.2.1, c.2.2 + 1)

theorem Axis.coord_next_self (a : Axis) (c : Cell) : a.coord (a.next c) = a.coord c + 1 := by cases a <;> rfl

theorem Axis.coord_next_of_ne {a b : Axis} (h : b ≠ a) (c : Cell) : b.coord (a.next c) = b.coord c := by
  cases a <;> cases b <;> first | rfl | exact absurd rfl h

theorem Axis.cell_ext {c d : Cell} (h : ∀ a : Axis, a.coord c = a.coord d) : c = d :=
  Prod.ext (h .x) (Prod.ext (h .y) (h .z))

/-- Some cell of `s` has its neighbour along the axis in `t` and not in `s`. -/
def Borders (a : Axis) (s t : Subgrid) : Prop := ∃ c ∈ s.cells, a.next c ∉ s.cells ∧ a.next c ∈ t.cells

/-- The face of `s` at its upper end along the axis is the whole face of `t` at its lower end. -/
def SharesFace (a : Axis) (s t : Subgrid) : Prop :=
  t.lo a = s.lo a + s.num a ∧ ∀ b, b ≠ a → t.lo b = s.lo b ∧ t.num b = s.num b

/-- The subgrids of the layout `L = (P, Q, R)`. -/
structure IsDistribution (user : Subgrid) (L : ℤ × ℤ × ℤ) (subgrids : SubgridArray) : Prop where
  nonEmpty : ∀ s ∈ subgrids, s.NonEmpty
  exact : Exact Subregion.cells subgrids ↑user.cells
  balanced : ∀ s ∈ subgrids, ∀ t ∈ subgrids, ∀ a, |s.num a - t.num a| ≤ 1
  processes_nodup : (subgrids.map Subregion.process).Nodup
  mem_processes : ∀ n, n ∈ subgrids.map Subregion.process ↔ 0 ≤ n ∧ n < L.1 * L.2.1 * L.2.2
  borders : ∀ s ∈ subgrids, ∀ t ∈ subgrids, ∀ c : ℤ × ℤ × ℤ, (∀ a : Axis, 0 ≤ a.coord c ∧ a.coord c < a.coord L) →
    s.process = pqrToProcess c.1 c.2.1 c.2.2 L.1 L.2.1 L.2.2 → ∀ a : Axis,
    (Borders a s t ↔ a.coord (a.next c) < a.coord L ∧
      t.process = pqrToProcess (a.next c).1 (a.next c).2.1 (a.next c).2.2 L.1 L.2.1 L.2.2) ∧
    (Borders a s t → SharesFace a s t)

def lastCell (s : Subgrid) : Cell := (s.ix + s.nx - 1, s.iy + s.ny - 1, s.iz + s.nz - 1)

theorem coord_lastCell (s : Subgrid) (a : Axis) : a.coord (lastCell s) = s.lo a + s.num a - 1 := by cases a <;> rfl

section Blocks

variable {user : Subgrid} {L c c' x : ℤ × ℤ × ℤ}

/-- The subgrid of the process at `c = (p, q, r)`. -/
def blockAt (user : Subgrid) (L c : ℤ × ℤ × ℤ) : Subgrid := processSubgrid user L.1 L.2.1 L.2.2 c.1 c.2.1 c.2.2

theorem blockAt_lo (a : Axis) : (blockAt user L c).lo a =
    start ((user.num a).tdiv (a.coord L)) ((user.num a).tmod (a.coord L)) (a.coord c) + user.lo a := by
  cases a <;> rfl

theorem blockAt_num (a : Axis) : (blockAt user L c).num a =
    size ((user.num a).tdiv (a.coord L)) ((user.num a).tmod (a.coord L)) (a.coord c) := by
  cases a <;> rfl

/-- The position `c` is one of the layout. -/
def InLayout (L c : ℤ × ℤ × ℤ) : Prop := ∀ a : Axis, 0 ≤ a.coord c ∧ a.coord c < a.coord L

theorem mem_blockAt : x ∈ (blockAt user L c).cells ↔ ∀ a : Axis,
    InBlock ((user.num a).tdiv (a.coord L)) ((user.num a).tmod (a.coord L)) (a.coord c) (a.coord x - user.lo a) := by
  rw [Subregion.mem_cells_axis]
  apply forall_congr'
  intro a
  rw [blockAt_lo, blockAt_num]
  unfold InBlock
  omega

theorem processes_inj (hc : InLayout L c) (hc' : InLayout L c')
    (h : pqrToProcess c.1 c.2.1 c.2.2 L.1 L.2.1 L.2.2 = pqrToProcess c'.1 c'.2.1 c'.2.2 L.1 L.2.1 L.2.2) : c = c' := by
  unfold pqrToProcess at h
  obtain ⟨hp, h₁⟩ := Strided.radix_inj (hc .x) (hc' .x) (by simpa only [Axis.coord, add_comm] using h)
  obtain ⟨hq, hr⟩ := Strided.radix_inj (hc .y) (hc' .y) (by simpa only [Axis.coord, add_comm] using h₁)
  exact Prod.ext hp (Prod.ext hq hr)

theorem process_bounds (hc : InLayout L c) : 0 ≤ pqrToProcess c.1 c.2.1 c.2.2 L.1 L.2.1 L.2.2 ∧
    pqrToProcess c.1 c.2.1 c.2.2 L.1 L.2.1 L.2.2 < L.1 * L.2.1 * L.2.2 := by
  obtain ⟨p, q, r⟩ := c
  obtain ⟨P, Q, R⟩ := L
  obtain ⟨hx, hx'⟩ := hc .x
  obtain ⟨hy, hy'⟩ := hc .y
  obtain ⟨hz, hz'⟩ := hc .z
  simp only [Axis.coord] at hx hx' hy hy' hz hz'
  simp only [pqrToProcess]
  have hP : 0 ≤ P := by omega
  have hQ : 0 ≤ Q := by omega
  have hrq : r * Q + q + 1 ≤ R * Q := by nlinarith
  constructor
  · positivity
  · nlinarith

theorem exists_process (hL : ∀ a : Axis, 0 < a.coord L) {n : ℤ} (hn : 0 ≤ n ∧ n < L.1 * L.2.1 * L.2.2) :
    ∃ c, InLayout L c ∧ pqrToProcess c.1 c.2.1 c.2.2 L.1 L.2.1 L.2.2 = n := by
  have hP : 0 < L.1 := hL .x
  have hQ : 0 < L.2.1 := hL .y
  have hR : n / L.1 / L.2.1 < L.2.2 := by
    rw [Int.ediv_ediv_of_nonneg hP.le]
    apply Int.ediv_lt_of_lt_mul (by positivity)
    linarith [hn.2]
  refine ⟨(n % L.1, n / L.1 % L.2.1, n / L.1 / L.2.1), ?_, ?_⟩
  · intro a
    cases a with
    | x => exact ⟨Int.emod_nonneg _ hP.ne', Int.emod_lt_of_pos _ hP⟩
    | y => exact ⟨Int.emod_nonneg _ hQ.ne', Int.emod_lt_of_pos _ hQ⟩
    | z => exact ⟨Int.ediv_nonneg (Int.ediv_nonneg hn.1 hP.le) hQ.le, hR⟩
  · simp only [pqrToProcess]
    rw [Int.mul_comm (n / L.1 / L.2.1), Int.mul_ediv_add_emod, Int.mul_comm, Int.mul_ediv_add_emod]

/-! ## All blocks -/

/-- The loops of `DistributeUserGrid`, as one list over the positions. -/
def layoutBlocks (user : Subgrid) (L : ℤ × ℤ × ℤ) : SubgridArray :=
  (nest (upto 0 L.1) (upto 0 L.2.1) (upto 0 L.2.2)).map fun c => blockAt user L (c.2.2, c.2.1, c.1)

theorem distributeUserGrid_eq (user : Subgrid) (L : ℤ × ℤ × ℤ) :
    distributeUserGrid none user (L.1 * L.2.1 * L.2.2) L.1 L.2.1 L.2.2 = some (layoutBlocks user L) := by
  simp [distributeUserGrid, layoutBlocks, nest, blockAt, List.map_flatMap, Function.comp_def]

theorem mem_layoutBlocks {s : Subgrid} : s ∈ layoutBlocks user L ↔ ∃ c, InLayout L c ∧ s = blockAt user L c := by
  simp only [layoutBlocks, List.mem_map, mem_nest, mem_upto]
  constructor
  · rintro ⟨c, ⟨hr, hq, hp⟩, rfl⟩
    exact ⟨(c.2.2, c.2.1, c.1), Axis.forall.mpr ⟨hp, hq, hr⟩, rfl⟩
  · rintro ⟨c, hc, rfl⟩
    exact ⟨(c.2.2, c.2.1, c.1), ⟨hc .z, hc .y, hc .x⟩, rfl⟩

theorem layoutBlocks_pairwise {S : Subgrid → Subgrid → Prop}
    (h : ∀ c c', InLayout L c → InLayout L c' → c ≠ c' → S (blockAt user L c) (blockAt user L c')) :
    (layoutBlocks user L).Pairwise S := by
  have hn := nest_nodup (upto_nodup 0 L.1) (upto_nodup 0 L.2.1) (upto_nodup 0 L.2.2)
  refine List.pairwise_map.mpr (hn.imp_of_mem ?_)
  rintro ⟨r, q, p⟩ ⟨r', q', p'⟩ hc hc' hne
  simp only [mem_nest, mem_upto] at hc hc'
  refine h _ _ (Axis.forall.mpr ⟨hc.2.2, hc.2.1, hc.1⟩) (Axis.forall.mpr ⟨hc'.2.2, hc'.2.1, hc'.1⟩) ?_
  rintro ⟨⟩
  exact hne rfl

/-- The layout has no more processes along an axis than the grid has cells. -/
structure Fits (user : Subgrid) (L : ℤ × ℤ × ℤ) : Prop where
  pos : ∀ a : Axis, 0 < a.coord L
  le : ∀ a : Axis, a.coord L ≤ user.num a

namespace Fits

variable (h : Fits user L)

include h

theorem quot_pos (a : Axis) : 0 < (user.num a).tdiv (a.coord L) := by
  have hle := h.le a
  have hpos := h.pos a
  rw [Int.tdiv_eq_ediv_of_nonneg (by omega)]
  exact Int.le_ediv_of_mul_le hpos (by rwa [zero_add, one_mul])

theorem rem_bounds (a : Axis) : 0 ≤ (user.num a).tmod (a.coord L) ∧ (user.num a).tmod (a.coord L) < a.coord L := by
  have hle := h.le a
  have hpos := h.pos a
  exact ⟨Int.tmod_nonneg _ (by omega), Int.tmod_lt_of_pos _ hpos⟩

theorem nonEmpty_blockAt (c : ℤ × ℤ × ℤ) : (blockAt user L c).NonEmpty := by
  rw [Subregion.nonEmpty_axis]
  intro a
  rw [blockAt_num]
  exact size_pos (h.quot_pos a) _ _

theorem position_unique (hx : x ∈ (blockAt user L c).cells) (hx' : x ∈ (blockAt user L c').cells) : c = c' := by
  rw [mem_blockAt] at hx hx'
  apply Axis.cell_ext
  intro a
  exact (hx a).unique (h.quot_pos a).le (hx' a)

theorem exists_mem_blockAt_iff : (∃ c, InLayout L c ∧ x ∈ (blockAt user L c).cells) ↔ x ∈ user.cells := by
  rw [Subregion.mem_cells_axis]
  constructor
  · rintro ⟨c, hc, hx⟩ a
    have hb := (mem_blockAt.mp hx a).bounds (h.quot_pos a).le (h.rem_bounds a).1 (h.rem_bounds a).2.le (hc a)
    rw [Int.tdiv_mul_add_tmod] at hb
    omega
  · intro hx
    have hpos : ∀ a : Axis, ∃ p, (0 ≤ p ∧ p < a.coord L) ∧
        InBlock ((user.num a).tdiv (a.coord L)) ((user.num a).tmod (a.coord L)) p (a.coord x - user.lo a) := by
      intro a
      apply exists_inBlock (h.rem_bounds a).1 (h.rem_bounds a).2.le (h.pos a).le
      rw [Int.tdiv_mul_add_tmod]
      have := hx a
      omega
    obtain ⟨p, hp, hbx⟩ := hpos .x
    obtain ⟨q, hq, hby⟩ := hpos .y
    obtain ⟨r, hr, hbz⟩ := hpos .z
    exact ⟨(p, q, r), Axis.forall.mpr ⟨hp, hq, hr⟩, mem_blockAt.mpr (Axis.forall.mpr ⟨hbx, hby, hbz⟩)⟩

theorem exact_layoutBlocks : Exact Subregion.cells (layoutBlocks user L) ↑user.cells := by
  constructor
  · apply layoutBlocks_pairwise
    intro c c' _ _ hne
    rw [Finset.disjoint_left]
    intro x hx hx'
    exact hne (h.position_unique hx hx')
  · intro x
    rw [Finset.mem_coe, ← h.exists_mem_blockAt_iff]
    constructor
    · rintro ⟨s, hs, hx⟩
      obtain ⟨c, hc, rfl⟩ := mem_layoutBlocks.mp hs
      exact ⟨c, hc, hx⟩
    · rintro ⟨c, hc, hx⟩
      exact ⟨_, mem_layoutBlocks.mpr ⟨c, hc, rfl⟩, hx⟩

/-- The cell beyond a block along an axis lies in the block one position further, and in no other. -/
theorem next_mem_iff (a : Axis) (hx : x ∈ (blockAt user L c).cells) (hout : a.next x ∉ (blockAt user L c).cells) :
    a.next x ∈ (blockAt user L c').cells ↔ c' = a.next c := by
  have hother : ∀ b, b ≠ a → InBlock ((user.num b).tdiv (b.coord L)) ((user.num b).tmod (b.coord L)) (b.coord c)
      (b.coord (a.next x) - user.lo b) := by
    intro b hb
    rw [Axis.coord_next_of_ne hb]
    exact mem_blockAt.mp hx b
  have hlast : ¬ InBlock ((user.num a).tdiv (a.coord L)) ((user.num a).tmod (a.coord L)) (a.coord c)
      (a.coord x - user.lo a + 1) := by
    intro hin
    refine hout (mem_blockAt.mpr fun b => ?_)
    by_cases hb : b = a
    · subst hb
      rwa [Axis.coord_next_self, add_sub_right_comm]
    · exact hother b hb
  have hstep : ∀ {p' : ℤ}, InBlock ((user.num a).tdiv (a.coord L)) ((user.num a).tmod (a.coord L)) p'
      (a.coord (a.next x) - user.lo a) ↔ p' = a.coord c + 1 := by
    intro p'
    rw [Axis.coord_next_self, add_sub_right_comm]
    exact inBlock_succ_iff (h.quot_pos a) (mem_blockAt.mp hx a) hlast
  rw [mem_blockAt]
  constructor
  · intro hmem
    apply Axis.cell_ext
    intro b
    by_cases hb : b = a
    · subst hb
      rw [Axis.coord_next_self]
      exact hstep.mp (hmem b)
    · rw [Axis.coord_next_of_ne hb]
      exact (hmem b).unique (h.quot_pos b).le (hother b hb)
  · rintro rfl b
    by_cases hb : b = a
    · subst hb
      exact hstep.mpr (Axis.coord_next_self b c)
    · rw [Axis.coord_next_of_ne hb]
      exact hother b hb

theorem borders_iff (a : Axis) : Borders a (blockAt user L c) (blockAt user L c') ↔ c' = a.next c := by
  constructor
  · rintro ⟨x, hx, hout, hin⟩
    exact (h.next_mem_iff a hx hout).mp hin
  · intro hc'
    have hne := Subregion.nonEmpty_axis.mp (h.nonEmpty_blockAt c)
    have hx : lastCell (blockAt user L c) ∈ (blockAt user L c).cells := by
      rw [Subregion.mem_cells_axis]
      intro b
      have := hne b
      rw [coord_lastCell]
      omega
    have hout : a.next (lastCell (blockAt user L c)) ∉ (blockAt user L c).cells := by
      intro hmem
      have := (Subregion.mem_cells_axis.mp hmem a).2
      rw [Axis.coord_next_self, coord_lastCell] at this
      omega
    exact ⟨_, hx, hout, (h.next_mem_iff a hx hout).mpr hc'⟩

end Fits

theorem sharesFace_next (user : Subgrid) (L c : ℤ × ℤ × ℤ) (a : Axis) :
    SharesFace a (blockAt user L c) (blockAt user L (a.next c)) := by
  constructor
  · rw [blockAt_lo, blockAt_lo, blockAt_num, Axis.coord_next_self, start_succ]
    ring
  · intro b hb
    rw [blockAt_lo, blockAt_lo, blockAt_num, blockAt_num, Axis.coord_next_of_ne hb]
    exact ⟨rfl, rfl⟩

theorem Fits.isDistribution (h : Fits user L) : IsDistribution user L (layoutBlocks user L) where
  nonEmpty := by
    intro s hs
    obtain ⟨c, -, rfl⟩ := mem_layoutBlocks.mp hs
    exact h.nonEmpty_blockAt c
  exact := h.exact_layoutBlocks
  balanced := by
    intro s hs t ht a
    obtain ⟨c, -, rfl⟩ := mem_layoutBlocks.mp hs
    obtain ⟨c', -, rfl⟩ := mem_layoutBlocks.mp ht
    rw [blockAt_num, blockAt_num]
    exact abs_size_sub_le _ _ _ _
  processes_nodup := by
    refine List.pairwise_map.mpr (layoutBlocks_pairwise ?_)
    intro c c' hc hc' hne he
    exact hne (processes_inj hc hc' he)
  mem_processes := by
    intro n
    rw [List.mem_map]
    constructor
    · rintro ⟨s, hs, rfl⟩
      obtain ⟨c, hc, rfl⟩ := mem_layoutBlocks.mp hs
      exact process_bounds hc
    · intro hn
      obtain ⟨c, hc, he⟩ := exists_process h.pos hn
      exact ⟨_, mem_layoutBlocks.mpr ⟨c, hc, rfl⟩, he⟩
  borders := by
    intro s hs t ht c hc hproc a
    obtain ⟨d, hd, rfl⟩ := mem_layoutBlocks.mp hs
    obtain ⟨d', hd', rfl⟩ := mem_layoutBlocks.mp ht
    obtain rfl := processes_inj hd hc hproc
    rw [h.borders_iff a]
    constructor
    · constructor
      · rintro rfl
        exact ⟨(hd' a).2, rfl⟩
      · rintro ⟨hlt, he⟩
        refine processes_inj hd' ?_ he
        intro b
        by_cases hb : b = a
        · subst hb
          have := (hd b).1
          rw [Axis.coord_next_self] at hlt ⊢
          omega
        · rw [Axis.coord_next_of_ne hb]
          exact hd b
    · rintro rfl
      exact sharesFace_next user L d a

end Blocks

theorem distributeUserGrid_distributes (user : Subgrid) (P Q R : ℤ) (hP : 1 ≤ P) (hQ : 1 ≤ Q) (hR : 1 ≤ R)
    (hx : P ≤ user.nx) (hy : Q ≤ user.ny) (hz : R ≤ user.nz) :
    ∃ subgrids, distributeUserGrid none user (P * Q * R) P Q R = some subgrids ∧
      IsDistribution user (P, Q, R) subgrids := by
  have hfits : Fits user (P, Q, R) := ⟨Axis.forall.mpr ⟨hP, hQ, hR⟩, Axis.forall.mpr ⟨hx, hy, hz⟩⟩
  exact ⟨_, distributeUserGrid_eq user (P, Q, R), hfits.isDistribution⟩

theorem sevenCells_distributes :
    ∃ subgrids, distributeUserGrid none (newSubgrid (-2) 5 0 7 4 3 0 0 0 0) (3 * 2 * 2) 3 2 2 = some subgrids ∧
      IsDistribution (newSubgrid (-2) 5 0 7 4 3 0 0 0 0) (3, 2, 2) subgrids :=
  distributeUserGrid_distributes _ 3 2 2 (by decide) (by decide) (by decide) (by decide) (by decide) (by decide)

end ParFlow
