import ParFlow.Topo.SlopeDefs

/-! Upwind slopes point downhill, so that no cell drains into itself. -/

namespace ParFlow.Topo

open Relation
open ParFlow.Pfb (Databox)

section

variable {K : Type} [Field K] [LinearOrder K] [IsStrictOrderedRing K] {dem : Databox K} {i j ii jj : ℤ} {h s1 s2 : K}

/-! ## One direction -/

omit [IsStrictOrderedRing K] in
theorem slopeFrom_of_data (hd : coeffAt dem ii jj ≠ nodata) :
    slopeFrom dem i j ii jj h = (coeffAt dem i j - coeffAt dem ii jj) / h := if_neg hd

omit [IsStrictOrderedRing K] in
theorem slopeTo_of_data (hd : coeffAt dem ii jj ≠ nodata) :
    slopeTo dem i j ii jj h = (coeffAt dem ii jj - coeffAt dem i j) / h := if_neg hd

theorem slopeFrom_pos_iff (hh : 0 < h) (hd : coeffAt dem ii jj ≠ nodata) :
    0 < slopeFrom dem i j ii jj h ↔ coeffAt dem ii jj < coeffAt dem i j := by
  rw [slopeFrom_of_data hd, div_pos_iff_of_pos_right hh, sub_pos]

theorem slopeTo_neg_iff (hh : 0 < h) (hd : coeffAt dem ii jj ≠ nodata) :
    slopeTo dem i j ii jj h < 0 ↔ coeffAt dem ii jj < coeffAt dem i j := by
  rw [slopeTo_of_data hd, div_lt_iff₀ hh, zero_mul, sub_neg]

omit [IsStrictOrderedRing K] in
theorem upwindSlope_pos (hs : 0 < upwindSlope s1 s2) : 0 < s1 := by
  unfold upwindSlope steeper at hs
  split_ifs at hs with hmax hsteeper hmin hleft hright
  · exact hs
  · exact absurd hs (not_lt.mpr hmax.2)
  · exact absurd hs (lt_irrefl _)
  · exact absurd hs (not_lt.mpr hleft.1.le)
  · exact hright.1
  · exact absurd hs (lt_irrefl _)

omit [IsStrictOrderedRing K] in
theorem upwindSlope_neg (hs : upwindSlope s1 s2 < 0) : s2 < 0 := by
  unfold upwindSlope steeper at hs
  split_ifs at hs with hmax hsteeper hmin hleft hright
  · exact absurd hs (not_lt.mpr hmax.1)
  · exact hs
  · exact absurd hs (lt_irrefl _)
  · exact hleft.2
  · exact absurd hs (not_lt.mpr hright.2.le)
  · exact absurd hs (lt_irrefl _)

/-! ## Downhill -/

theorem slopeXUpwind_pos {dx : K} (hdx : 0 < dx) (hi : i ≠ 0) (hc : coeffAt dem i j ≠ nodata)
    (hd : coeffAt dem (i - 1) j ≠ nodata) (hs : 0 < slopeXUpwind dem dx i j) : coeffAt dem (i - 1) j < coeffAt dem i j := by
  refine (slopeFrom_pos_iff hdx hd).mp ?_
  unfold slopeXUpwind at hs
  simp only [if_neg hc, hi, false_and, if_false] at hs
  split_ifs at hs
  · exact hs
  · exact hs
  · exact hs
  · exact upwindSlope_pos hs

theorem slopeXUpwind_neg {dx : K} (hdx : 0 < dx) (hi : i ≠ dem.nx - 1) (hc : coeffAt dem i j ≠ nodata)
    (hd : coeffAt dem (i + 1) j ≠ nodata) (hs : slopeXUpwind dem dx i j < 0) : coeffAt dem (i + 1) j < coeffAt dem i j := by
  refine (slopeTo_neg_iff hdx hd).mp ?_
  unfold slopeXUpwind at hs
  simp only [if_neg hc, hi, false_and, if_false] at hs
  split_ifs at hs
  · exact hs
  · exact hs
  · exact hs
  · exact upwindSlope_neg hs

theorem slopeYUpwind_pos {dy : K} (hdy : 0 < dy) (hj : j ≠ 0) (hc : coeffAt dem i j ≠ nodata)
    (hd : coeffAt dem i (j - 1) ≠ nodata) (hs : 0 < slopeYUpwind dem dy i j) : coeffAt dem i (j - 1) < coeffAt dem i j := by
  refine (slopeFrom_pos_iff hdy hd).mp ?_
  unfold slopeYUpwind at hs
  simp only [if_neg hc, hj, and_false, if_false] at hs
  split_ifs at hs
  · exact hs
  · exact hs
  · exact hs
  · exact upwindSlope_pos hs

theorem slopeYUpwind_neg {dy : K} (hdy : 0 < dy) (hj : j ≠ dem.ny - 1) (hc : coeffAt dem i j ≠ nodata)
    (hd : coeffAt dem i (j + 1) ≠ nodata) (hs : slopeYUpwind dem dy i j < 0) : coeffAt dem i (j + 1) < coeffAt dem i j := by
  refine (slopeTo_neg_iff hdy hd).mp ?_
  unfold slopeYUpwind at hs
  simp only [if_neg hc, hj, and_false, if_false] at hs
  split_ifs at hs
  · exact hs
  · exact hs
  · exact hs
  · exact upwindSlope_neg hs

end

/-! ## Drainage -/

section

variable {K : Type} [Field K] [LinearOrder K] (dem sx sy : Databox K)

/-- The cell `d`, which has data, drains into the cell `c`, which has data. -/
structure DrainsInto (c d : ℤ × ℤ) : Prop where
  child : IsCell dem c
  parent : IsCell dem d
  child_data : HasData dem c
  parent_data : HasData dem d
  test : computeTestParent c.1 c.2 d.1 d.2 dem sx sy = 1

variable {dem sx sy}

/-- The four ways to be a parent. -/
theorem parent_iff {i j ii jj : ℤ} : computeTestParent i j ii jj dem sx sy = 1 ↔ coeffAt dem ii jj ≠ nodata ∧
    (ii = i - 1 ∧ jj = j ∧ coeffAt sx ii jj < 0 ∨ ii = i + 1 ∧ jj = j ∧ 0 < coeffAt sx ii jj ∨
      ii = i ∧ jj = j - 1 ∧ coeffAt sy ii jj < 0 ∨ ii = i ∧ jj = j + 1 ∧ 0 < coeffAt sy ii jj) := by
  unfold computeTestParent
  constructor
  · intro h
    split_ifs at h with hadjacent hnodata hwest heast hsouth hnorth
    · exact absurd h (by decide)
    · exact ⟨hnodata, Or.inl hwest⟩
    · exact ⟨hnodata, Or.inr (Or.inl heast)⟩
    · exact ⟨hnodata, Or.inr (Or.inr (Or.inl hsouth))⟩
    · exact ⟨hnodata, Or.inr (Or.inr (Or.inr hnorth))⟩
    · exact absurd h (by decide)
  · rintro ⟨hdata, hcases⟩
    have hadjacent : |i - ii| + |j - jj| = 1 := by
      rcases hcases with ⟨rfl, rfl, -⟩ | ⟨rfl, rfl, -⟩ | ⟨rfl, rfl, -⟩ | ⟨rfl, rfl, -⟩ <;> simp
    rw [if_pos hadjacent, if_neg hdata]
    rcases hcases with hwest | heast | hsouth | hnorth
    · rw [if_pos hwest]
    · rw [if_neg (by omega), if_pos heast]
    · rw [if_neg (by omega), if_neg (by omega), if_pos hsouth]
    · rw [if_neg (by omega), if_neg (by omega), if_neg (by omega), if_pos hnorth]

end

section

variable {K : Type} [Field K] [LinearOrder K] [IsStrictOrderedRing K] {dem sx sy : Databox K} {dx dy : K} {c d : ℤ × ℤ}

/-- A parent by upwind slopes lies higher. -/
theorem DrainsInto.lt (hdx : 0 < dx) (hdy : 0 < dy) (hsx : sx.nx = dem.nx) (hsy : sy.nx = dem.nx)
    (h : DrainsInto dem (computeSlopeXUpwind dem dx sx) (computeSlopeYUpwind dem dy sy) c d) :
    coeffAt dem c.1 c.2 < coeffAt dem d.1 d.2 := by
  obtain ⟨⟨⟨hc1, hc2⟩, hc3, hc4⟩, hd, hcdata, hddata, htest⟩ := h
  have hx : coeffAt (computeSlopeXUpwind dem dx sx) d.1 d.2 = slopeXUpwind dem dx d.1 d.2 := coeffAt_setGrid _ hsx hd
  have hy : coeffAt (computeSlopeYUpwind dem dy sy) d.1 d.2 = slopeYUpwind dem dy d.1 d.2 := coeffAt_setGrid _ hsy hd
  obtain ⟨i, j⟩ := c
  obtain ⟨ii, jj⟩ := d
  dsimp only at *
  rcases (parent_iff.mp htest).2 with ⟨hii, rfl, hs⟩ | ⟨hii, rfl, hs⟩ | ⟨rfl, hjj, hs⟩ | ⟨rfl, hjj, hs⟩
  · obtain rfl : i = ii + 1 := by omega
    exact slopeXUpwind_neg hdx (by omega) hddata hcdata (hx ▸ hs)
  · obtain rfl : i = ii - 1 := by omega
    exact slopeXUpwind_pos hdx (by omega) hddata hcdata (hx ▸ hs)
  · obtain rfl : j = jj + 1 := by omega
    exact slopeYUpwind_neg hdy (by omega) hddata hcdata (hy ▸ hs)
  · obtain rfl : j = jj - 1 := by omega
    exact slopeYUpwind_pos hdy (by omega) hddata hcdata (hy ▸ hs)

/-- Upwind slopes drain downhill, and following them to parents never leads back. -/
theorem upwind_downhill (dem sx sy : Databox K) (hdx : 0 < dx) (hdy : 0 < dy) (hsx : sx.nx = dem.nx) (hsy : sy.nx = dem.nx) :
    (∀ c d, DrainsInto dem (computeSlopeXUpwind dem dx sx) (computeSlopeYUpwind dem dy sy) c d →
      coeffAt dem c.1 c.2 < coeffAt dem d.1 d.2) ∧
    ∀ c, ¬ TransGen (DrainsInto dem (computeSlopeXUpwind dem dx sx) (computeSlopeYUpwind dem dy sy)) c c := by
  refine ⟨fun c d h => h.lt hdx hdy hsx hsy, fun c hcycle => ?_⟩
  have hrise : ∀ d, TransGen (DrainsInto dem (computeSlopeXUpwind dem dx sx) (computeSlopeYUpwind dem dy sy)) c d →
      coeffAt dem c.1 c.2 < coeffAt dem d.1 d.2 := by
    intro d hd
    induction hd with
    | single h => exact h.lt hdx hdy hsx hsy
    | tail _ h ih => exact ih.trans (h.lt hdx hdy hsx hsy)
  exact lt_irrefl _ (hrise c hcycle)

end

/-! ## A slope from west to east -/

/-- Elevations 3, 1 and no data in the first row, and 2, 5 and 4 in the second one. -/
def coastDem : Databox ℚ := ⟨3, 2, 1, 0, 0, 0, 1, 1, 1, fun n => [3, 1, nodata, 2, 5, 4].getD n.toNat 0⟩

theorem coastDem_downhill :
    (∀ c d, DrainsInto coastDem (computeSlopeXUpwind coastDem 1 coastDem) (computeSlopeYUpwind coastDem 2 coastDem) c d →
      coeffAt coastDem c.1 c.2 < coeffAt coastDem d.1 d.2) ∧
    ∀ c, ¬ TransGen (DrainsInto coastDem (computeSlopeXUpwind coastDem 1 coastDem)
      (computeSlopeYUpwind coastDem 2 coastDem)) c c :=
  upwind_downhill coastDem coastDem coastDem one_pos two_pos rfl rfl

end ParFlow.Topo
