import ParFlow.Comm.VectorCells

/-! The incremental indices of the box loops, for boxes of any extents. -/

namespace ParFlow

open IntLoop

/-- Planes first, then rows, x fastest. -/
def LoopOrder : Cell → Cell → Prop :=
  InvImage (Prod.Lex (· < ·) (Prod.Lex (· < ·) (· < ·))) fun c : Cell => (c.2.2, c.2.1, c.1)

theorem cells_pairwise {zs ys xs : List ℤ} (hz : zs.Pairwise (· < ·)) (hy : ys.Pairwise (· < ·)) (hx : xs.Pairwise (· < ·)) :
    (nest zs ys xs).Pairwise LoopOrder := by
  unfold nest
  rw [List.pairwise_flatMap]
  constructor
  · intro k _
    rw [List.pairwise_flatMap]
    constructor
    · intro j _
      rw [List.pairwise_map]
      exact hx.imp fun h => Prod.Lex.right _ (Prod.Lex.right _ h)
    · refine hy.imp fun hj c hc d hd => ?_
      obtain ⟨i, -, rfl⟩ := List.mem_map.mp hc
      obtain ⟨i', -, rfl⟩ := List.mem_map.mp hd
      exact Prod.Lex.right _ (Prod.Lex.left _ _ hj)
  · refine hz.imp fun hk c hc d hd => ?_
    obtain ⟨j, -, i, -, rfl⟩ : ∃ j ∈ ys, ∃ i ∈ xs, (i, j, _) = c := by simpa only [List.mem_flatMap, List.mem_map] using hc
    obtain ⟨j', -, i', -, rfl⟩ : ∃ j ∈ ys, ∃ i ∈ xs, (i, j, _) = d := by simpa only [List.mem_flatMap, List.mem_map] using hd
    exact Prod.Lex.left _ _ hk

section

variable (ix iy iz nx ny nz : ℤ)

theorem boxLoopI0_pairwise : (boxLoopI0 ix iy iz nx ny nz).Pairwise LoopOrder :=
  cells_pairwise (upto_pairwise_lt _ _) (upto_pairwise_lt _ _) (upto_pairwise_lt _ _)

theorem boxLoopI0_eq_nil (h : ¬ (newSubgrid ix iy iz nx ny nz 0 0 0 0).NonEmpty) : boxLoopI0 ix iy iz nx ny nz = [] :=
  cellList_eq_nil h

theorem boxLoop_eq_nil_of_empty {σ : Type} (h : ¬ (newSubgrid ix iy iz nx ny nz 0 0 0 0).NonEmpty) (moveX moveY moveZ : σ → σ)
    (st : σ) : boxLoop moveX moveY moveZ ix iy iz nx ny nz st = [] :=
  boxLoop_eq_nil h moveX moveY moveZ st

/-- Every iteration of a loop with one array, in the order of the cells. -/
theorem boxLoopI1_eq_map (i1 nx1 ny1 sx1 sy1 sz1 : ℤ) :
    boxLoopI1 ix iy iz nx ny nz i1 nx1 ny1 sx1 sy1 sz1 = (boxLoopI0 ix iy iz nx ny nz).map fun c =>
      (c, i1 + (c.1 - ix) * sx1 + (c.2.1 - iy) * (sy1 * nx1) + (c.2.2 - iz) * (sz1 * nx1 * ny1)) := by
  by_cases h : (newSubgrid ix iy iz nx ny nz 0 0 0 0).NonEmpty
  · obtain ⟨hx, hy, hz⟩ := h
    exact boxLoopI1_eq hx.le hy.le hz.le ..
  · rw [boxLoopI0_eq_nil _ _ _ _ _ _ h, List.map_nil]
    exact boxLoop_eq_nil_of_empty _ _ _ _ _ _ h ..

theorem boxLoopI2_eq_map (i1 nx1 ny1 sx1 sy1 sz1 i2 nx2 ny2 sx2 sy2 sz2 : ℤ) :
    boxLoopI2 ix iy iz nx ny nz i1 nx1 ny1 sx1 sy1 sz1 i2 nx2 ny2 sx2 sy2 sz2 = (boxLoopI0 ix iy iz nx ny nz).map fun c =>
      (c, i1 + (c.1 - ix) * sx1 + (c.2.1 - iy) * (sy1 * nx1) + (c.2.2 - iz) * (sz1 * nx1 * ny1),
        i2 + (c.1 - ix) * sx2 + (c.2.1 - iy) * (sy2 * nx2) + (c.2.2 - iz) * (sz2 * nx2 * ny2)) := by
  by_cases h : (newSubgrid ix iy iz nx ny nz 0 0 0 0).NonEmpty
  · obtain ⟨hx, hy, hz⟩ := h
    exact boxLoopI2_eq hx.le hy.le hz.le ..
  · rw [boxLoopI0_eq_nil _ _ _ _ _ _ h, List.map_nil]
    exact boxLoop_eq_nil_of_empty _ _ _ _ _ _ h ..

/-- A box loop that visits the cells `cells`: each cell of the box once, x fastest. -/
structure VisitsBox (ix iy iz nx ny nz : ℤ) (cells : List Cell) : Prop where
  mem_iff : ∀ c, c ∈ cells ↔ (ix ≤ c.1 ∧ c.1 < ix + nx) ∧ (iy ≤ c.2.1 ∧ c.2.1 < iy + ny) ∧ iz ≤ c.2.2 ∧ c.2.2 < iz + nz
  nodup : cells.Nodup
  order : cells.Pairwise LoopOrder

theorem boxLoopI0_visitsBox : VisitsBox ix iy iz nx ny nz (boxLoopI0 ix iy iz nx ny nz) :=
  ⟨fun _ => mem_boxLoopI0, boxLoopI0_nodup, boxLoopI0_pairwise ix iy iz nx ny nz⟩

/-- The loops with one and with two arrays visit the box, and their running indices are the addresses of the cells. -/
theorem boxLoops_address (i1 nx1 ny1 sx1 sy1 sz1 i2 nx2 ny2 sx2 sy2 sz2 : ℤ) :
    (VisitsBox ix iy iz nx ny nz ((boxLoopI1 ix iy iz nx ny nz i1 nx1 ny1 sx1 sy1 sz1).map Prod.fst) ∧
        VisitsBox ix iy iz nx ny nz
          ((boxLoopI2 ix iy iz nx ny nz i1 nx1 ny1 sx1 sy1 sz1 i2 nx2 ny2 sx2 sy2 sz2).map Prod.fst)) ∧
      (∀ i j k index, ((i, j, k), index) ∈ boxLoopI1 ix iy iz nx ny nz i1 nx1 ny1 sx1 sy1 sz1 →
        index = i1 + (i - ix) * sx1 + (j - iy) * sy1 * nx1 + (k - iz) * sz1 * nx1 * ny1) ∧
      ∀ i j k index index', ((i, j, k), index, index') ∈
          boxLoopI2 ix iy iz nx ny nz i1 nx1 ny1 sx1 sy1 sz1 i2 nx2 ny2 sx2 sy2 sz2 →
        index = i1 + (i - ix) * sx1 + (j - iy) * sy1 * nx1 + (k - iz) * sz1 * nx1 * ny1 ∧
          index' = i2 + (i - ix) * sx2 + (j - iy) * sy2 * nx2 + (k - iz) * sz2 * nx2 * ny2 := by
  have hone := boxLoopI1_eq_map ix iy iz nx ny nz i1 nx1 ny1 sx1 sy1 sz1
  have htwo := boxLoopI2_eq_map ix iy iz nx ny nz i1 nx1 ny1 sx1 sy1 sz1 i2 nx2 ny2 sx2 sy2 sz2
  have hvisits := boxLoopI0_visitsBox ix iy iz nx ny nz
  refine ⟨⟨?_, ?_⟩, ?_, ?_⟩
  · rw [hone, List.map_map]
    exact (List.map_id _).symm ▸ hvisits
  · rw [htwo, List.map_map]
    exact (List.map_id _).symm ▸ hvisits
  · intro i j k index hmem
    rw [hone] at hmem
    obtain ⟨c, -, heq⟩ := List.mem_map.mp hmem
    obtain ⟨rfl, hindex⟩ := Prod.mk.inj heq
    rw [← hindex]
    ring
  · intro i j k index index' hmem
    rw [htwo] at hmem
    obtain ⟨c, -, heq⟩ := List.mem_map.mp hmem
    obtain ⟨rfl, hindex⟩ := Prod.mk.inj heq
    obtain ⟨h₁, h₂⟩ := Prod.mk.inj hindex
    rw [← h₁, ← h₂]
    constructor <;> ring

end

end ParFlow
