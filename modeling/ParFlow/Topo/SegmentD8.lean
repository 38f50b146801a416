import ParFlow.Topo.LowestCell
import ParFlow.Topo.SteepestSlopes

/-! D8 slopes times segment lengths. Along coasts the segment length is chosen without the slope along y. -/

namespace ParFlow.Topo

open ParFlow.Pfb (Databox)

section

variable {K : Type} [Field K] [LinearOrder K] (sqrt : K → K) (dem slope ds : Databox K) (i j : ℤ)

/-- The number of cells without data around `[i,j]`. -/
def nodataAround : ℕ := (around i j).countP fun d => decide (IsCell dem d ∧ coeffAt dem d.1 d.2 = nodata)

/-- The elevation of the cell to which `[i,j]` drains: the cells without data next to it, which lie at 0, else the
lowest cell around it, which lies lower. -/
def DrainsTo (e : K) : Prop :=
  0 < nodataAround dem i j ∧ e = 0 ∨
  nodataAround dem i j = 0 ∧ e < coeffAt dem i j ∧ (∃ d ∈ around i j, IsCell dem d ∧ coeffAt dem d.1 d.2 = e) ∧
    ∀ d ∈ around i j, IsCell dem d → e ≤ coeffAt dem d.1 d.2

/-- A D8 slope that is not zero, times the segment length, is the difference in elevation to the child. -/
def SlopeTimesSegment : Prop :=
  coeffAt (computeSlopeD8 sqrt dem slope) i j ≠ 0 → ∃ e, DrainsTo dem i j e ∧
    coeffAt (computeSlopeD8 sqrt dem slope) i j * coeffAt (computeSegmentD8 sqrt dem ds) i j = |coeffAt dem i j - e|

def WestOrEast : Prop := coeffAt dem (i - 1) j = nodata ∨ coeffAt dem (i + 1) j = nodata

def SouthOrNorth : Prop := coeffAt dem i (j - 1) = nodata ∨ coeffAt dem i (j + 1) = nodata

def AtCorner : Prop :=
  coeffAt dem (i - 1) (j - 1) = nodata ∨ coeffAt dem (i - 1) (j + 1) = nodata ∨
    coeffAt dem (i + 1) (j - 1) = nodata ∨ coeffAt dem (i + 1) (j + 1) = nodata

instance : Decidable (WestOrEast dem i j) :=
  inferInstanceAs (Decidable (coeffAt dem (i - 1) j = nodata ∨ coeffAt dem (i + 1) j = nodata))

instance : Decidable (SouthOrNorth dem i j) :=
  inferInstanceAs (Decidable (coeffAt dem i (j - 1) = nodata ∨ coeffAt dem i (j + 1) = nodata))

instance : Decidable (AtCorner dem i j) :=
  inferInstanceAs (Decidable (coeffAt dem (i - 1) (j - 1) = nodata ∨ coeffAt dem (i - 1) (j + 1) = nodata ∨
    coeffAt dem (i + 1) (j - 1) = nodata ∨ coeffAt dem (i + 1) (j + 1) = nodata))

/-- Where slope and segment length agree. Inland the search for the slope must meet an elevation below the value that it
starts with, or the cell not lie above it. With several cells without data around the cell, none of them may be the
southern or the northern neighbour, unless the steepest way to the coast is along x or the distances are equal. -/
structure SegmentAgrees : Prop where
  inland : nodataAround dem i j = 0 →
    coeffAt dem i j ≤ 100000000.0 ∨ ∃ d ∈ around i j, IsCell dem d ∧ coeffAt dem d.1 d.2 < 100000000.0
  coast : 1 < nodataAround dem i j → coeffAt dem i j = 0 ∨ ¬ SouthOrNorth dem i j ∨
    WestOrEast dem i j ∧ dem.dx ≤ dem.dy ∨ ¬ WestOrEast dem i j ∧ ¬ AtCorner dem i j ∧ dem.dx = dem.dy

/-- The distance to the lowest cell. -/
def stepLength (dxy : K) (lowest : Lowest K) : K :=
  if i = lowest.imin then dem.dy else if j = lowest.jmin then dem.dx else dxy

end

section

variable {K : Type} [Field K] [LinearOrder K] {dem dem' : Databox K} {i j : ℤ} {dxy e e' : K}

theorem DrainsTo.unique (h : DrainsTo dem i j e) (h' : DrainsTo dem i j e') : e = e' := by
  rcases h with ⟨hpos, rfl⟩ | ⟨hzero, -, ⟨d, hd, hcell, rfl⟩, hle⟩
  · rcases h' with ⟨-, rfl⟩ | ⟨hzero', -⟩
    · rfl
    · exact absurd hzero' hpos.ne'
  · rcases h' with ⟨hpos', -⟩ | ⟨-, -, ⟨d', hd', hcell', rfl⟩, hle'⟩
    · exact absurd hzero hpos'.ne'
    · exact le_antisymm (hle d' hd' hcell') (hle' d hd hcell)

/-- Above sea level and inland the child lies no higher. -/
theorem DrainsTo.le (h : DrainsTo dem i j e) (hz : 0 ≤ coeffAt dem i j ∨ nodataAround dem i j = 0) :
    e ≤ coeffAt dem i j := by
  rcases h with ⟨hpos, rfl⟩ | ⟨-, hlt, -⟩
  · exact hz.resolve_right hpos.ne'
  · exact hlt.le

theorem SameCells.nodataAround_eq (h : SameCells dem dem') : nodataAround dem' i j = nodataAround dem i j := by
  unfold nodataAround
  refine List.countP_congr fun d _ => ?_
  rw [decide_eq_true_iff, decide_eq_true_iff, h.isCell_iff]
  exact and_congr_right fun hd => by rw [h.coeff_eq d hd]

theorem SameCells.drainsTo_iff (h : SameCells dem dem') (hcell : IsCell dem (i, j)) :
    DrainsTo dem' i j e ↔ DrainsTo dem i j e := by
  unfold DrainsTo
  rw [h.nodataAround_eq, h.coeff_eq (i, j) hcell]
  refine or_congr_right (and_congr_right fun _ => and_congr_right fun _ => and_congr ?_ ?_)
  · refine exists_congr fun d => and_congr_right fun _ => ?_
    rw [h.isCell_iff]
    exact and_congr_right fun hd => by rw [h.coeff_eq d hd]
  · refine forall₂_congr fun d _ => ?_
    rw [h.isCell_iff]
    exact forall_congr' fun hd => by rw [h.coeff_eq d hd]

/-! ## Interior cells -/

theorem slopeD8_interior (hint : IsInterior dem (i, j)) (hdata : coeffAt dem i j ≠ nodata) :
    slopeD8 dem dxy i j =
      if nodataAround dem i j = 0 then
        if (findLowest dem 100000000.0 (around i j)).zmin = coeffAt dem i j then 0
        else |coeffAt dem i j - coeffAt dem (findLowest dem 100000000.0 (around i j)).imin
          (findLowest dem 100000000.0 (around i j)).jmin| / stepLength dem i j dxy (findLowest dem 100000000.0 (around i j))
      else if nodataAround dem i j = 1 then
        |coeffAt dem i j| / stepLength dem i j dxy (findLowest dem 100000000.0 (around i j))
      else max (coastSlopes dem dxy i j).1 (max (coastSlopes dem dxy i j).2.1 (coastSlopes dem dxy i j).2.2) := by
  have hcount := (findLowest_isLowest dem 100000000.0 (around i j)).nodata_eq
  change _ = (nodataAround dem i j : ℤ) at hcount
  obtain ⟨⟨hi, hi'⟩, hj, hj'⟩ := hint
  dsimp only at hi hi' hj hj'
  unfold slopeD8 stepLength
  simp only [if_neg hdata, hcount, Nat.cast_eq_zero, Nat.cast_eq_one, hi.ne', hi'.ne, hj.ne', hj'.ne, false_and, if_false,
    sub_zero]
  split_ifs <;> rfl

theorem segmentD8_interior (hint : IsInterior dem (i, j)) (hdata : coeffAt dem i j ≠ nodata) :
    segmentD8 dem dxy i j =
      if nodataAround dem i j = 0 then
        if (findLowest dem 100000000000.0 (around i j)).zmin = coeffAt dem i j then 0
        else stepLength dem i j dxy (findLowest dem 100000000000.0 (around i j))
      else if nodataAround dem i j = 1 then stepLength dem i j dxy (findLowest dem 100000000000.0 (around i j))
      else
        let smax := max (coastSlopes dem dxy i j).1 (max (coastSlopes dem dxy i j).1 (coastSlopes dem dxy i j).2.2)
        if smax = (coastSlopes dem dxy i j).1 then dem.dx else if smax = (coastSlopes dem dxy i j).2.1 then dem.dy else dxy := by
  have hcount := (findLowest_isLowest dem 100000000000.0 (around i j)).nodata_eq
  change _ = (nodataAround dem i j : ℤ) at hcount
  obtain ⟨⟨hi, hi'⟩, hj, hj'⟩ := hint
  dsimp only at hi hi' hj hj'
  unfold segmentD8 stepLength
  simp only [if_neg hdata, hcount, Nat.cast_eq_zero, Nat.cast_eq_one, hi.ne', hi'.ne, hj.ne', hj'.ne, false_and, if_false]

end

/-! ## Coasts -/

section

variable {K : Type} [Field K] [LinearOrder K] [IsStrictOrderedRing K] {dem dem' : Databox K} {i j : ℤ} {dxy e : K}

/-- The greatest of the three slopes, times the length that belongs to the greater one of the first and the third. -/
theorem greatest_mul_length_iff {X Y D : Prop} [Decidable X] [Decidable Y] [Decidable D] {a dx dy n : K} (hdx : 0 < dx)
    (hdy : 0 < dy) (hx : dx < dxy) (hy : dy < dxy) (ha : 0 < a) (hn : n < 0) (hsome : X ∨ Y ∨ D) :
    (max (if X then a / dx else n) (max (if Y then a / dy else n) (if D then a / dxy else n)) *
        if max (if X then a / dx else n) (max (if X then a / dx else n) (if D then a / dxy else n)) =
          (if X then a / dx else n) then dx
        else if max (if X then a / dx else n) (max (if X then a / dx else n) (if D then a / dxy else n)) =
          (if Y then a / dy else n) then dy
        else dxy) = a ↔ ¬ Y ∨ X ∧ dx ≤ dy ∨ ¬ X ∧ ¬ D ∧ dx = dy := by
  have hdxy : 0 < dxy := hdx.trans hx
  have hsx : n < a / dx := hn.trans (div_pos ha hdx)
  have hsy : n < a / dy := hn.trans (div_pos ha hdy)
  have hsd : n < a / dxy := hn.trans (div_pos ha hdxy)
  have hdltx : a / dxy < a / dx := div_lt_div_of_pos_left ha hdx hx
  have hdlty : a / dxy < a / dy := div_lt_div_of_pos_left ha hdy hy
  by_cases hX : X
  · -- the third slope is less than the first one
    have hthird : (if D then a / dxy else n) ≤ a / dx := by
      split_ifs
      · exact hdltx.le
      · exact hsx.le
    simp only [if_pos hX, max_eq_left hthird, max_self, if_true]
    by_cases hY : Y
    · have hthird' : (if D then a / dxy else n) ≤ a / dy := by
        split_ifs
        · exact hdlty.le
        · exact hsy.le
      have hright : (¬ Y ∨ X ∧ dx ≤ dy ∨ ¬ X ∧ ¬ D ∧ dx = dy) ↔ dx ≤ dy := by simp [hX, hY]
      rw [hright, if_pos hY, max_eq_left hthird']
      rcases le_or_gt dx dy with hle | hlt
      · rw [max_eq_left (div_le_div_of_nonneg_left ha.le hdx hle), div_mul_cancel₀ _ hdx.ne']
        exact iff_of_true rfl hle
      · rw [max_eq_right (div_le_div_of_nonneg_left ha.le hdy hlt.le), div_mul_eq_mul_div, div_eq_iff hdy.ne']
        exact iff_of_false (fun h => hlt.ne' (mul_left_cancel₀ ha.ne' h)) (not_le.mpr hlt)
    · rw [if_neg hY, max_eq_left (max_le hsx.le hthird), div_mul_cancel₀ _ hdx.ne']
      exact iff_of_true rfl (Or.inl hY)
  · simp only [if_neg hX]
    by_cases hD : D
    · simp only [if_pos hD, max_eq_right hsd.le, hsd.ne', if_false]
      by_cases hY : Y
      · rw [if_pos hY, if_neg hdlty.ne, max_eq_left hdlty.le, max_eq_right hsy.le, div_mul_eq_mul_div, div_eq_iff hdy.ne']
        refine iff_of_false (fun h => hy.ne' (mul_left_cancel₀ ha.ne' h)) ?_
        rintro (h | h | h)
        · exact h hY
        · exact hX h.1
        · exact h.2.1 hD
      · rw [if_neg hY, if_neg hsd.ne', max_eq_right hsd.le, max_eq_right hsd.le, div_mul_cancel₀ _ hdxy.ne']
        exact iff_of_true rfl (Or.inl hY)
    · have hY : Y := (hsome.resolve_left hX).resolve_right hD
      simp only [if_neg hD, if_pos hY, max_self, if_true, max_eq_left hsy.le, max_eq_right hsy.le]
      rw [div_mul_eq_mul_div, div_eq_iff hdy.ne', mul_right_inj' ha.ne']
      simp [hX, hD, hY]

theorem nodata_neg : (nodata : K) < 0 := by
  unfold nodata
  norm_num

omit [IsStrictOrderedRing K] in
/-- A cell without data around an interior cell is one of its eight neighbours. -/
theorem neighbour_of_nodataAround (hint : IsInterior dem (i, j)) (hdata : coeffAt dem i j ≠ nodata)
    (hpos : 0 < nodataAround dem i j) : WestOrEast dem i j ∨ SouthOrNorth dem i j ∨ AtCorner dem i j := by
  obtain ⟨⟨ii, jj⟩, hmem, hd⟩ := List.countP_pos_iff.mp hpos
  obtain ⟨-, hd⟩ := of_decide_eq_true hd
  obtain ⟨⟨hi, hi'⟩, hj, hj'⟩ := mem_around.mp hmem
  dsimp only at hi hi' hj hj' hd
  unfold WestOrEast SouthOrNorth AtCorner
  have hii : ii = i - 1 ∨ ii = i ∨ ii = i + 1 := by omega
  have hjj : jj = j - 1 ∨ jj = j ∨ jj = j + 1 := by omega
  rcases hii with rfl | rfl | rfl <;> rcases hjj with rfl | rfl | rfl
  all_goals first | exact absurd hd hdata | simp [hd]

theorem coast_iff (hdx : 0 < dem.dx) (hdy : 0 < dem.dy) (hx : dem.dx < dxy) (hy : dem.dy < dxy)
    (hint : IsInterior dem (i, j)) (hdata : coeffAt dem i j ≠ nodata) (hz : coeffAt dem i j ≠ 0)
    (hcoast : 1 < nodataAround dem i j) :
    slopeD8 dem dxy i j * segmentD8 dem dxy i j = |coeffAt dem i j| ↔ ¬ SouthOrNorth dem i j ∨
      WestOrEast dem i j ∧ dem.dx ≤ dem.dy ∨ ¬ WestOrEast dem i j ∧ ¬ AtCorner dem i j ∧ dem.dx = dem.dy := by
  rw [slopeD8_interior hint hdata, segmentD8_interior hint hdata, if_neg (by omega), if_neg (by omega), if_neg (by omega),
    if_neg (by omega)]
  have h := greatest_mul_length_iff (X := WestOrEast dem i j) (Y := SouthOrNorth dem i j) (D := AtCorner dem i j) hdx hdy hx hy
    (abs_pos.mpr hz) (nodata_neg (K := K)) (neighbour_of_nodataAround hint hdata (by omega))
  simp only [coastSlopes, sub_zero]
  exact h

/-- A cell with several cells without data around it has slope zero only at the elevation 0. -/
theorem coast_slope_eq_zero_iff (hdx : 0 < dem.dx) (hdy : 0 < dem.dy) (hx : dem.dx < dxy) (hint : IsInterior dem (i, j))
    (hdata : coeffAt dem i j ≠ nodata) (hcoast : 1 < nodataAround dem i j) :
    slopeD8 dem dxy i j = 0 ↔ coeffAt dem i j = 0 := by
  have hne0 : nodataAround dem i j ≠ 0 := by omega
  have hne1 : nodataAround dem i j ≠ 1 := by omega
  rw [slopeD8_interior hint hdata, if_neg hne0, if_neg hne1]
  have hsome := neighbour_of_nodataAround hint hdata (zero_lt_one.trans hcoast)
  have hneg := nodata_neg (K := K)
  unfold WestOrEast SouthOrNorth AtCorner at hsome
  simp only [coastSlopes, sub_zero]
  constructor
  · intro hzero
    by_contra hz
    have hpos := abs_pos.mpr hz
    have hle := hzero.le
    rw [max_le_iff, max_le_iff] at hle
    rcases hsome with h | h | h
    · rw [if_pos h] at hle
      exact absurd hle.1 (not_le.mpr (div_pos hpos hdx))
    · rw [if_pos h] at hle
      exact absurd hle.2.1 (not_le.mpr (div_pos hpos hdy))
    · rw [if_pos h] at hle
      exact absurd hle.2.2 (not_le.mpr (div_pos hpos (hdx.trans hx)))
  · intro hz
    simp only [hz, abs_zero, zero_div]
    apply le_antisymm
    · refine max_le ?_ (max_le ?_ ?_) <;> split_ifs
      all_goals first | exact le_rfl | exact hneg.le
    · rw [le_max_iff, le_max_iff]
      rcases hsome with h | h | h
      · exact Or.inl (if_pos h).ge
      · exact Or.inr (Or.inl (if_pos h).ge)
      · exact Or.inr (Or.inr (if_pos h).ge)

/-! ## Slope times segment length -/

omit [IsStrictOrderedRing K] in
theorem stepLength_pos (hdx : 0 < dem.dx) (hdy : 0 < dem.dy) (hx : dem.dx < dxy) (lowest : Lowest K) :
    0 < stepLength dem i j dxy lowest := by
  unfold stepLength
  split_ifs
  · exact hdy
  · exact hdx
  · exact hdx.trans hx

omit [IsStrictOrderedRing K] in
theorem self_mem_around (i j : ℤ) : (i, j) ∈ around i j := mem_around.mpr (by dsimp only; omega)

theorem startValue_lt : (100000000.0 : K) < 100000000000.0 := by norm_num

/-- Both searches meet the same lowest cell, when there is one below the lesser start value. -/
theorem inland_eq (hdx : 0 < dem.dx) (hdy : 0 < dem.dy) (hx : dem.dx < dxy) (hint : IsInterior dem (i, j))
    (hdata : coeffAt dem i j ≠ nodata) (hzero : nodataAround dem i j = 0)
    (hfound : (findLowest dem 100000000.0 (around i j)).zmin < 100000000.0) (hslope : slopeD8 dem dxy i j ≠ 0) :
    DrainsTo dem i j (findLowest dem 100000000.0 (around i j)).zmin ∧ slopeD8 dem dxy i j * segmentD8 dem dxy i j =
      |coeffAt dem i j - (findLowest dem 100000000.0 (around i j)).zmin| := by
  have hlowest := findLowest_isLowest dem 100000000.0 (around i j)
  obtain ⟨hmem, hcell, hmin, -⟩ := hlowest.found.resolve_left fun h => hfound.ne h.1
  rw [slopeD8_interior hint hdata, if_pos hzero] at hslope ⊢
  rw [segmentD8_interior hint hdata, if_pos hzero, findLowest_bound startValue_lt.le hfound]
  have hne : (findLowest dem 100000000.0 (around i j)).zmin ≠ coeffAt dem i j := fun h => hslope (if_pos h)
  rw [if_neg hne, if_neg hne, hmin, div_mul_cancel₀ _ (stepLength_pos hdx hdy hx _).ne']
  refine ⟨Or.inr ⟨hzero, ?_, ⟨_, hmem, hcell, hmin⟩, hlowest.le_cell⟩, rfl⟩
  exact lt_of_le_of_ne (hlowest.le_cell _ (self_mem_around i j) hint.isCell.1) hne

/-- One cell without data is the same one for both searches. -/
theorem oneNodata_eq (hdx : 0 < dem.dx) (hdy : 0 < dem.dy) (hx : dem.dx < dxy) (hint : IsInterior dem (i, j))
    (hdata : coeffAt dem i j ≠ nodata) (hone : nodataAround dem i j = 1) :
    slopeD8 dem dxy i j * segmentD8 dem dxy i j = |coeffAt dem i j| := by
  have hlowest := findLowest_isLowest dem 100000000.0 (around i j)
  have hfound : (findLowest dem 100000000.0 (around i j)).zmin < 100000000.0 := by
    obtain ⟨d, hmem, hd⟩ := List.countP_pos_iff.mp (show 0 < nodataAround dem i j by omega)
    obtain ⟨hcell, hd⟩ := of_decide_eq_true hd
    have hle := hlowest.le_cell d hmem hcell
    rw [hd] at hle
    exact hle.trans_lt (nodata_neg.trans (by norm_num))
  have hne : nodataAround dem i j ≠ 0 := by omega
  rw [slopeD8_interior hint hdata, segmentD8_interior hint hdata, if_neg hne, if_neg hne, if_pos hone,
    if_pos hone, findLowest_bound startValue_lt.le hfound, div_mul_cancel₀ _ (stepLength_pos hdx hdy hx _).ne']

/-- The value behind `[-9999,-9999]`, where the slope is read when the search finds no cell. -/
def setOutside (dem : Databox K) (v : K) : Databox K := setCoeff dem (-9999) (-9999) v

omit [Field K] [LinearOrder K] [IsStrictOrderedRing K] in
theorem setOutside_sameCells (dem : Databox K) (v : K) : SameCells dem (setOutside dem v) := by
  refine ⟨rfl, rfl, rfl, rfl, fun c hc => Function.update_of_ne ?_ _ _⟩
  obtain ⟨⟨hi, hi'⟩, hj, hj'⟩ := hc
  show 0 * dem.ny * dem.nx + c.2 * dem.nx + c.1 ≠ 0 * dem.ny * dem.nx + -9999 * dem.nx + -9999
  have hrow : 0 ≤ c.2 * dem.nx := mul_nonneg hj (by omega)
  omega

omit [Field K] [LinearOrder K] [IsStrictOrderedRing K] in
theorem SameCells.isInterior (h : SameCells dem dem') (hint : IsInterior dem (i, j)) : IsInterior dem' (i, j) := by
  unfold IsInterior at hint ⊢
  rwa [h.nx_eq, h.ny_eq]

omit [IsStrictOrderedRing K] in
/-- A cell above the start value with no cell below it around drains to whatever lies outside the grid. -/
theorem slopeD8_setOutside (hint : IsInterior dem (i, j)) (hdata : coeffAt dem i j ≠ nodata)
    (hzero : nodataAround dem i j = 0) (habove : 100000000.0 < coeffAt dem i j)
    (hall : ∀ d ∈ around i j, IsCell dem d → 100000000.0 ≤ coeffAt dem d.1 d.2) (t : K) :
    slopeD8 (setOutside dem (coeffAt dem i j + t)) dxy i j = |t| / dxy := by
  have hsame := setOutside_sameCells dem (coeffAt dem i j + t)
  have hz : coeffAt (setOutside dem (coeffAt dem i j + t)) i j = coeffAt dem i j := hsame.coeff_eq (i, j) hint.isCell.1
  obtain ⟨hzmin, himin, hjmin⟩ := (findLowest_isLowest dem 100000000.0 (around i j)).found.resolve_right
    fun ⟨hmem, hcell, hmin, hlt⟩ => absurd hlt (not_lt.mpr (hmin ▸ hall _ hmem hcell))
  have houtside : coeffAt (setOutside dem (coeffAt dem i j + t)) (-9999) (-9999) = coeffAt dem i j + t := coeffAt_setCoeff _ _
  rw [slopeD8_interior (hsame.isInterior hint) (hz.trans_ne hdata), if_pos (hsame.nodataAround_eq.trans hzero), hz,
    hsame.findLowest_eq, hzmin, if_neg habove.ne, himin, hjmin, houtside, sub_add_cancel_left, abs_neg]
  unfold stepLength
  obtain ⟨⟨hi, -⟩, hj, -⟩ := hint
  dsimp only at hi hj
  rw [himin, hjmin, if_neg (by omega), if_neg (by omega)]

omit [IsStrictOrderedRing K] in
theorem SameCells.segmentD8_eq (h : SameCells dem dem') (hint : IsInterior dem (i, j)) (hdata : coeffAt dem i j ≠ nodata)
    (hzero : nodataAround dem i j = 0) : segmentD8 dem' dxy i j = segmentD8 dem dxy i j := by
  have hz : coeffAt dem' i j = coeffAt dem i j := h.coeff_eq (i, j) hint.isCell.1
  rw [segmentD8_interior hint hdata, segmentD8_interior (h.isInterior hint) (hz.trans_ne hdata), if_pos hzero,
    if_pos (h.nodataAround_eq.trans hzero), hz, h.findLowest_eq]
  unfold stepLength
  rw [h.dx_eq, h.dy_eq]

end

section

variable {K : Type} [Field K] [LinearOrder K] [IsStrictOrderedRing K]

omit [IsStrictOrderedRing K] in
theorem slopeTimesSegment_eq (sqrt : K → K) {dem slope ds : Databox K} {i j : ℤ} (hslope : slope.nx = dem.nx)
    (hds : ds.nx = dem.nx) (hcell : IsCell dem (i, j)) : SlopeTimesSegment sqrt dem slope ds i j ↔
      (slopeD8 dem (diagonal sqrt dem) i j ≠ 0 → ∃ e, DrainsTo dem i j e ∧
        slopeD8 dem (diagonal sqrt dem) i j * segmentD8 dem (diagonal sqrt dem) i j = |coeffAt dem i j - e|) := by
  have h : coeffAt (computeSlopeD8 sqrt dem slope) i j = slopeD8 dem (diagonal sqrt dem) i j := coeffAt_setGrid _ hslope hcell
  have h' : coeffAt (computeSegmentD8 sqrt dem ds) i j = segmentD8 dem (diagonal sqrt dem) i j :=
    coeffAt_setGrid _ hds hcell
  unfold SlopeTimesSegment
  rw [h, h']

variable {dem dem' : Databox K} {i j : ℤ} {dxy : K}

omit [IsStrictOrderedRing K] in
theorem SameCells.segmentAgrees (h : SameCells dem dem') (hint : IsInterior dem (i, j)) (hagrees : SegmentAgrees dem i j) :
    SegmentAgrees dem' i j := by
  obtain ⟨⟨hi, hi'⟩, hj, hj'⟩ := id hint
  dsimp only at hi hi' hj hj'
  have hcoeff : ∀ ii jj, i - 1 ≤ ii → ii ≤ i + 1 → j - 1 ≤ jj → jj ≤ j + 1 → coeffAt dem' ii jj = coeffAt dem ii jj := by
    intro ii jj h1 h2 h3 h4
    refine h.coeff_eq (ii, jj) ?_
    unfold IsCell
    dsimp only
    omega
  constructor
  · intro hzero
    rw [hcoeff i j (by omega) (by omega) (by omega) (by omega)]
    refine (hagrees.inland (h.nodataAround_eq ▸ hzero)).imp_right ?_
    rintro ⟨d, hmem, hcell, hlt⟩
    exact ⟨d, hmem, h.isCell_iff.mpr hcell, (h.coeff_eq d hcell).trans_lt hlt⟩
  · intro hcoast
    have hc := hagrees.coast (h.nodataAround_eq ▸ hcoast)
    unfold SouthOrNorth WestOrEast AtCorner at hc ⊢
    rw [h.dx_eq, h.dy_eq]
    simp (disch := omega) only [hcoeff]
    exact hc

/-- Slope times segment length where the two routines agree. -/
theorem SegmentAgrees.product (hdx : 0 < dem.dx) (hdy : 0 < dem.dy) (hx : dem.dx < dxy) (hy : dem.dy < dxy)
    (hint : IsInterior dem (i, j)) (hdata : coeffAt dem i j ≠ nodata) (hagrees : SegmentAgrees dem i j)
    (hslope : slopeD8 dem dxy i j ≠ 0) :
    ∃ e, DrainsTo dem i j e ∧ slopeD8 dem dxy i j * segmentD8 dem dxy i j = |coeffAt dem i j - e| := by
  rcases lt_trichotomy (nodataAround dem i j) 1 with hlt | hone | hcoast
  · have hzero : nodataAround dem i j = 0 := by omega
    have hlowest := findLowest_isLowest dem 100000000.0 (around i j)
    refine ⟨_, inland_eq hdx hdy hx hint hdata hzero (lt_of_le_of_ne hlowest.le_bound fun hbound => ?_) hslope⟩
    have hle := hlowest.le_cell _ (self_mem_around i j) hint.isCell.1
    rcases hagrees.inland hzero with hz | ⟨d, hmem, hcell, hd⟩
    · refine hslope ?_
      rw [slopeD8_interior hint hdata, if_pos hzero, if_pos (le_antisymm hle (hz.trans_eq hbound.symm))]
    · exact absurd (hlowest.le_cell d hmem hcell) (not_le.mpr (hd.trans_eq hbound.symm))
  · exact ⟨0, Or.inl ⟨by omega, rfl⟩, by rw [sub_zero]; exact oneNodata_eq hdx hdy hx hint hdata hone⟩
  · refine ⟨0, Or.inl ⟨by omega, rfl⟩, ?_⟩
    have hz : coeffAt dem i j ≠ 0 := mt (coast_slope_eq_zero_iff hdx hdy hx hint hdata hcoast).mpr hslope
    rw [sub_zero]
    exact (coast_iff hdx hdy hx hy hint hdata hz hcoast).mpr ((hagrees.coast hcoast).resolve_left hz)

/-- Whatever lies outside the grid, slope times segment length is the difference in elevation to the child exactly
where the two routines agree. -/
theorem slopeTimesSegment_iff (sqrt : K → K) (dem slope ds : Databox K) (i j : ℤ) (hdx : 0 < dem.dx) (hdy : 0 < dem.dy)
    (hx : dem.dx < diagonal sqrt dem) (hy : dem.dy < diagonal sqrt dem) (hslope : slope.nx = dem.nx) (hds : ds.nx = dem.nx)
    (hint : IsInterior dem (i, j)) (hdata : coeffAt dem i j ≠ nodata) :
    (∀ dem', SameCells dem dem' → SlopeTimesSegment sqrt dem' slope ds i j) ↔ SegmentAgrees dem i j := by
  have hdxy : ∀ dem', SameCells dem dem' → diagonal sqrt dem' = diagonal sqrt dem := by
    intro dem' h
    unfold diagonal
    rw [h.dx_eq, h.dy_eq]
  have hlaw : ∀ dem', SameCells dem dem' → (SlopeTimesSegment sqrt dem' slope ds i j ↔
      (slopeD8 dem' (diagonal sqrt dem) i j ≠ 0 → ∃ e, DrainsTo dem i j e ∧
        slopeD8 dem' (diagonal sqrt dem) i j * segmentD8 dem' (diagonal sqrt dem) i j = |coeffAt dem i j - e|)) := by
    intro dem' h
    rw [slopeTimesSegment_eq sqrt (hslope.trans h.nx_eq.symm) (hds.trans h.nx_eq.symm) (h.isCell_iff.mpr hint.isCell.1),
      hdxy dem' h, h.coeff_eq (i, j) hint.isCell.1]
    simp only [h.drainsTo_iff hint.isCell.1]
  constructor
  · intro hall
    refine ⟨fun hzero => ?_, fun hcoast => ?_⟩
    · -- else the slope is any multiple of a number, and the length does not change
      by_contra hnone
      push Not at hnone
      obtain ⟨habove, hnone⟩ := hnone
      have hproduct : ∀ t : K, 0 < t → ∃ e, DrainsTo dem i j e ∧
          t / diagonal sqrt dem * segmentD8 dem (diagonal sqrt dem) i j = |coeffAt dem i j - e| := by
        intro t ht
        have hsame := setOutside_sameCells dem (coeffAt dem i j + t)
        have h := (hlaw _ hsame).mp (hall _ hsame)
        rw [slopeD8_setOutside hint hdata hzero habove hnone, hsame.segmentD8_eq hint hdata hzero, abs_of_pos ht] at h
        exact h (div_pos ht (hdx.trans hx)).ne'
      obtain ⟨e, he, h1⟩ := hproduct 1 one_pos
      obtain ⟨e', he', h2⟩ := hproduct 2 two_pos
      obtain rfl := he.unique he'
      have hlength : 1 / diagonal sqrt dem * segmentD8 dem (diagonal sqrt dem) i j = 0 := by
        have hdouble : 2 / diagonal sqrt dem * segmentD8 dem (diagonal sqrt dem) i j =
            1 / diagonal sqrt dem * segmentD8 dem (diagonal sqrt dem) i j +
              1 / diagonal sqrt dem * segmentD8 dem (diagonal sqrt dem) i j := by ring
        rw [h2, ← h1, left_eq_add] at hdouble
        exact hdouble
      rw [hlength, eq_comm, abs_eq_zero, sub_eq_zero] at h1
      rcases he with ⟨hpos, -⟩ | ⟨-, hlt, -⟩
      · exact absurd hzero hpos.ne'
      · exact absurd h1 hlt.ne'
    · refine or_iff_not_imp_left.mpr fun hz => ?_
      have hne := mt (coast_slope_eq_zero_iff hdx hdy hx hint hdata hcoast).mp hz
      obtain ⟨e, he, hproduct⟩ := (hlaw dem (SameCells.refl dem)).mp (hall dem (SameCells.refl dem)) hne
      rcases he with ⟨-, rfl⟩ | ⟨hzero, -⟩
      · rw [sub_zero] at hproduct
        exact (coast_iff hdx hdy hx hy hint hdata hz hcoast).mp hproduct
      · omega
  · intro hagrees dem' h
    have hz : coeffAt dem' i j = coeffAt dem i j := h.coeff_eq (i, j) hint.isCell.1
    rw [hlaw dem' h]
    intro hne
    obtain ⟨e, he, hproduct⟩ := SegmentAgrees.product (h.dx_eq ▸ hdx) (h.dy_eq ▸ hdy) (h.dx_eq ▸ hx) (h.dy_eq ▸ hy)
      (h.isInterior hint) (hz.trans_ne hdata) (h.segmentAgrees hint hagrees) hne
    exact ⟨e, (h.drainsTo_iff hint.isCell.1).mp he, hz ▸ hproduct⟩

end

/-! ## A coast to the south -/

/-- The cells of the southern row have no data; the cell in the middle lies at 4. -/
def southCoast : Databox ℚ :=
  ⟨3, 3, 1, 0, 0, 0, 3, 4, 1, fun n => [nodata, nodata, nodata, 9, 4, 9, 9, 9, 9].getD n.toNat 0⟩

/-- The square root of 25. -/
def rootOf25 (x : ℚ) : ℚ := if x = 25 then 5 else x

theorem southCoast_iff : (∀ dem', SameCells southCoast dem' → SlopeTimesSegment rootOf25 dem' southCoast southCoast 1 1) ↔
    SegmentAgrees southCoast 1 1 :=
  slopeTimesSegment_iff rootOf25 southCoast southCoast southCoast 1 1 (by decide) (by decide) (by decide +kernel)
    (by decide +kernel) rfl rfl (by unfold IsInterior; decide) (by decide +kernel)

/-- The slope is that to the south, and the length that of the diagonal. -/
theorem southCoast_not_slopeTimesSegment : IsInterior southCoast (1, 1) ∧ coeffAt southCoast 1 1 ≠ nodata ∧
    ¬ SlopeTimesSegment rootOf25 southCoast southCoast southCoast 1 1 := by
  refine ⟨by unfold IsInterior; decide, by decide +kernel, fun h => ?_⟩
  have hslope : coeffAt (computeSlopeD8 rootOf25 southCoast southCoast) 1 1 = 1 := by decide +kernel
  have hds : coeffAt (computeSegmentD8 rootOf25 southCoast southCoast) 1 1 = 5 := by decide +kernel
  have hz : coeffAt southCoast 1 1 = 4 := by decide +kernel
  obtain ⟨e, he, hproduct⟩ := h (hslope.trans_ne one_ne_zero)
  rw [hslope, hds, hz] at hproduct
  rcases he with ⟨-, rfl⟩ | ⟨hzero, -⟩
  · exact absurd hproduct (by norm_num)
  · exact absurd hzero (by decide +kernel)

end ParFlow.Topo
