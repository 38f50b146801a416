import ParFlow.Topo.UpwindSlopes

/-! D4 slopes: they follow the greatest difference in elevation, which need not be a descent. -/

namespace ParFlow.Topo

open ParFlow.Pfb (Databox)

section

variable {K : Type} [Field K] [LinearOrder K] (dem sx sy : Databox K)

/-- How steeply the ground falls from `c` to `d`, a neighbour in the same row or column. -/
def descent (c d : ℤ × ℤ) : K :=
  (coeffAt dem c.1 c.2 - coeffAt dem d.1 d.2) / if d.2 = c.2 then dem.dx else dem.dy

/-- The neighbour `d` of `c` lies lower, and the ground falls to no neighbour more steeply. -/
def IsSteepest (c d : ℤ × ℤ) : Prop :=
  coeffAt dem d.1 d.2 < coeffAt dem c.1 c.2 ∧ ∀ e : ℤ × ℤ, |c.1 - e.1| + |c.2 - e.2| = 1 → descent dem c e ≤ descent dem c d

/-- The law of D4 slopes at an interior cell: at most one of them is not zero, and then the cell drains to the
steepest descent. -/
structure D4Law (c : ℤ × ℤ) : Prop where
  one_zero : coeffAt sx c.1 c.2 = 0 ∨ coeffAt sy c.1 c.2 = 0
  steepest : coeffAt sx c.1 c.2 ≠ 0 ∨ coeffAt sy c.1 c.2 ≠ 0 →
    ∃ d : ℤ × ℤ, computeTestParent d.1 d.2 c.1 c.2 dem sx sy = 1 ∧ IsSteepest dem c d

def IsInterior (c : ℤ × ℤ) : Prop := (0 < c.1 ∧ c.1 < dem.nx - 1) ∧ 0 < c.2 ∧ c.2 < dem.ny - 1

variable (i j : ℤ)

def descentX : K := max (descent dem (i, j) (i - 1, j)) (descent dem (i, j) (i + 1, j))

def descentY : K := max (descent dem (i, j) (i, j - 1)) (descent dem (i, j) (i, j + 1))

/-- The greatest difference in elevation along x, upwards or downwards, relative to the distance. -/
def differenceX : K := max |descent dem (i, j) (i - 1, j)| |descent dem (i, j) (i + 1, j)|

def differenceY : K := max |descent dem (i, j) (i, j - 1)| |descent dem (i, j) (i, j + 1)|

/-- The steepest descent lies along the axis of the greatest difference, which is x in a tie. -/
def DescendsAlongDifference : Prop :=
  differenceX dem i j = 0 ∧ differenceY dem i j = 0 ∨
  differenceY dem i j ≤ differenceX dem i j ∧ 0 < descentX dem i j ∧ descentY dem i j ≤ descentX dem i j ∨
  differenceX dem i j < differenceY dem i j ∧ 0 < descentY dem i j ∧ descentX dem i j ≤ descentY dem i j

end

section

variable {K : Type} [Field K] [LinearOrder K] [IsStrictOrderedRing K]

/-! ## Which slope is chosen -/

section Choice

variable {w e s n : K}

/-- The slope along one axis, with descents `w` and `e` to either side, drains to the lower side when that side has
the greatest difference or the other side lies higher. -/
theorem steeper_pos_iff : 0 < steeper w (-e) ↔ |e| < |w| ∧ 0 < w ∨ |w| ≤ |e| ∧ e < 0 := by
  unfold steeper
  rw [abs_neg]
  split_ifs with h
  · exact ⟨fun hw => Or.inl ⟨h, hw⟩, fun hw => hw.elim And.right fun hle => absurd h (not_lt.mpr hle.1)⟩
  · rw [neg_pos]
    exact ⟨fun he => Or.inr ⟨not_lt.mp h, he⟩, fun he => he.elim (fun hlt => absurd hlt.1 h) And.right⟩

theorem steeper_neg_iff : steeper w (-e) < 0 ↔ |e| < |w| ∧ w < 0 ∨ |w| ≤ |e| ∧ 0 < e := by
  unfold steeper
  rw [abs_neg]
  split_ifs with h
  · exact ⟨fun hw => Or.inl ⟨h, hw⟩, fun hw => hw.elim And.right fun hle => absurd h (not_lt.mpr hle.1)⟩
  · rw [neg_lt_zero]
    exact ⟨fun he => Or.inr ⟨not_lt.mp h, he⟩, fun he => he.elim (fun hlt => absurd hlt.1 h) And.right⟩

omit [IsStrictOrderedRing K] in
theorem abs_steeper : |steeper w (-e)| = max |w| |e| := by
  unfold steeper
  rw [abs_neg]
  split_ifs with h
  · exact (max_eq_left h.le).symm
  · rw [abs_neg]
    exact (max_eq_right (not_lt.mp h)).symm

/-- The slope along the axis of the greatest difference drains to the steepest descent exactly when that descent lies
along this axis; `m` is the steepest descent along this axis, and `d` that along the other one. -/
theorem choice_iff {d m M : K} (hm : m = max w e) (hM : M = max |w| |e|) (hd : d ≤ M) :
    ((0 < steeper w (-e) → 0 < w ∧ m ≤ w ∧ d ≤ w) ∧ (steeper w (-e) < 0 → 0 < e ∧ m ≤ e ∧ d ≤ e)) ↔
      M = 0 ∨ 0 < m ∧ d ≤ m := by
  subst hm hM
  rw [steeper_pos_iff, steeper_neg_iff]
  rcases lt_or_ge |e| |w| with h | h
  · rw [max_eq_left h.le] at hd ⊢
    have hw : |w| ≠ 0 := ((abs_nonneg e).trans_lt h).ne'
    rcases lt_or_gt_of_ne (abs_ne_zero.mp hw) with hneg | hpos
    · grind
    · rw [abs_of_pos hpos] at hd h
      have he : e ≤ w := (le_abs_self e).trans h.le
      grind
  · rw [max_eq_right h] at hd ⊢
    rcases lt_trichotomy e 0 with hneg | rfl | hpos
    · grind
    · have hw : w = 0 := abs_eq_zero.mp (le_antisymm (h.trans abs_zero.le) (abs_nonneg w))
      simp [hw]
    · rw [abs_of_pos hpos] at hd h
      have hw : w ≤ e := (le_abs_self w).trans h
      grind

end Choice

/-! ## The law -/

variable {dem sx sy : Databox K} {i j : ℤ}

theorem forall_adjacent {P : ℤ × ℤ → Prop} : (∀ e : ℤ × ℤ, |i - e.1| + |j - e.2| = 1 → P e) ↔
    (P (i - 1, j) ∧ P (i + 1, j)) ∧ P (i, j - 1) ∧ P (i, j + 1) := by
  constructor
  · intro h
    exact ⟨⟨h _ (by simp), h _ (by simp)⟩, h _ (by simp), h _ (by simp)⟩
  · rintro ⟨⟨hw, he⟩, hs, hn⟩ ⟨ii, jj⟩ hadjacent
    simp only [abs_eq_max_neg] at hadjacent
    have hcases : ii = i - 1 ∧ jj = j ∨ ii = i + 1 ∧ jj = j ∨ ii = i ∧ jj = j - 1 ∨ ii = i ∧ jj = j + 1 := by omega
    rcases hcases with ⟨rfl, rfl⟩ | ⟨rfl, rfl⟩ | ⟨rfl, rfl⟩ | ⟨rfl, rfl⟩
    · exact hw
    · exact he
    · exact hs
    · exact hn

theorem descent_pos_iff (hdx : 0 < dem.dx) (hdy : 0 < dem.dy) {c d : ℤ × ℤ} :
    0 < descent dem c d ↔ coeffAt dem d.1 d.2 < coeffAt dem c.1 c.2 := by
  unfold descent
  split_ifs
  · rw [div_pos_iff_of_pos_right hdx, sub_pos]
  · rw [div_pos_iff_of_pos_right hdy, sub_pos]

theorem isSteepest_iff (hdx : 0 < dem.dx) (hdy : 0 < dem.dy) {d : ℤ × ℤ} : IsSteepest dem (i, j) d ↔
    0 < descent dem (i, j) d ∧ descentX dem i j ≤ descent dem (i, j) d ∧ descentY dem i j ≤ descent dem (i, j) d := by
  unfold IsSteepest descentX descentY
  rw [forall_adjacent (P := fun e => descent dem (i, j) e ≤ descent dem (i, j) d), descent_pos_iff hdx hdy, max_le_iff,
    max_le_iff]

/-- The law side by side. -/
theorem d4Law_iff (hdata : coeffAt dem i j ≠ nodata) : D4Law dem sx sy (i, j) ↔
    (coeffAt sx i j = 0 ∨ coeffAt sy i j = 0) ∧
    ((0 < coeffAt sx i j → IsSteepest dem (i, j) (i - 1, j)) ∧ (coeffAt sx i j < 0 → IsSteepest dem (i, j) (i + 1, j))) ∧
    (coeffAt sy i j < 0 → IsSteepest dem (i, j) (i, j + 1)) ∧ (0 < coeffAt sy i j → IsSteepest dem (i, j) (i, j - 1)) := by
  constructor
  · rintro ⟨hone, hsteepest⟩
    dsimp only at hone hsteepest
    have hto : ∀ d : ℤ × ℤ, (∀ d' : ℤ × ℤ, computeTestParent d'.1 d'.2 i j dem sx sy = 1 → d' = d) →
        coeffAt sx i j ≠ 0 ∨ coeffAt sy i j ≠ 0 → IsSteepest dem (i, j) d := by
      intro d hd hne
      obtain ⟨d', htest, hd'⟩ := hsteepest hne
      exact hd d' htest ▸ hd'
    refine ⟨hone, ⟨fun h => hto _ ?_ (Or.inl h.ne'), fun h => hto _ ?_ (Or.inl h.ne)⟩,
      fun h => hto _ ?_ (Or.inr h.ne), fun h => hto _ ?_ (Or.inr h.ne')⟩
    all_goals
      rintro ⟨ii, jj⟩ htest
      dsimp only at htest
      have hcases := (parent_iff.mp htest).2
      rw [Prod.mk.injEq]
      clear hto hsteepest htest
      rcases hone with h0 | h0 <;> rw [h0] at hcases <;> grind
  · rintro ⟨hone, ⟨hwest, heast⟩, hnorth, hsouth⟩
    refine ⟨hone, fun hne => ?_⟩
    dsimp only at hne ⊢
    rcases hne with hx | hy
    · rcases lt_or_gt_of_ne hx with h | h
      · exact ⟨(i + 1, j), parent_iff.mpr ⟨hdata, Or.inl ⟨by simp, rfl, h⟩⟩, heast h⟩
      · exact ⟨(i - 1, j), parent_iff.mpr ⟨hdata, Or.inr (Or.inl ⟨by simp, rfl, h⟩)⟩, hwest h⟩
    · rcases lt_or_gt_of_ne hy with h | h
      · exact ⟨(i, j + 1), parent_iff.mpr ⟨hdata, Or.inr (Or.inr (Or.inl ⟨rfl, by simp, h⟩))⟩, hnorth h⟩
      · exact ⟨(i, j - 1), parent_iff.mpr ⟨hdata, Or.inr (Or.inr (Or.inr ⟨rfl, by simp, h⟩))⟩, hsouth h⟩

omit [Field K] [LinearOrder K] [IsStrictOrderedRing K] in
/-- The neighbours of an interior cell are cells. -/
theorem IsInterior.isCell (h : IsInterior dem (i, j)) : IsCell dem (i, j) ∧
    (IsCell dem (i - 1, j) ∧ IsCell dem (i + 1, j)) ∧ IsCell dem (i, j - 1) ∧ IsCell dem (i, j + 1) := by
  obtain ⟨⟨hi, hi'⟩, hj, hj'⟩ := h
  dsimp only at hi hi' hj hj'
  unfold IsCell
  dsimp only
  omega

omit [IsStrictOrderedRing K] in
theorem slopesD4_interior (hint : IsInterior dem (i, j)) (hdata : ∀ c, IsCell dem c → HasData dem c) :
    slopesD4 dem i j = (steeper (descent dem (i, j) (i - 1, j)) (-descent dem (i, j) (i + 1, j)),
      -steeper (descent dem (i, j) (i, j + 1)) (-descent dem (i, j) (i, j - 1))) := by
  obtain ⟨-, ⟨hwest, heast⟩, hsouth, hnorth⟩ := hint.isCell
  obtain ⟨⟨hi, hi'⟩, hj, hj'⟩ := hint
  dsimp only at hi hi' hj hj'
  have hneg : ∀ s n : K, -steeper n (-s) = steeper (-n) s := by
    intro s n
    unfold steeper
    rw [abs_neg, abs_neg]
    split_ifs
    · rfl
    · rw [neg_neg]
  have hwest' : slopeFrom dem i j (i - 1) j dem.dx = descent dem (i, j) (i - 1, j) := by
    rw [slopeFrom_of_data (hdata _ hwest), descent, if_pos rfl]
  have heast' : slopeTo dem i j (i + 1) j dem.dx = -descent dem (i, j) (i + 1, j) := by
    rw [slopeTo_of_data (hdata _ heast), descent, if_pos rfl, ← neg_div, neg_sub]
  have hsouth' : slopeFrom dem i j i (j - 1) dem.dy = descent dem (i, j) (i, j - 1) := by
    rw [slopeFrom_of_data (hdata _ hsouth), descent, if_neg (by simp)]
  have hnorth' : slopeTo dem i j i (j + 1) dem.dy = -descent dem (i, j) (i, j + 1) := by
    rw [slopeTo_of_data (hdata _ hnorth), descent, if_neg (by simp), ← neg_div, neg_sub]
  unfold slopesD4
  rw [if_neg (by omega), if_neg (by omega), if_neg (by omega), if_neg (by omega), if_neg (by omega), if_neg (by omega),
    if_neg (by omega), if_neg (by omega), hwest', heast', hsouth', hnorth', hneg]

omit [IsStrictOrderedRing K] in
theorem slopeXD4_interior (hint : IsInterior dem (i, j)) (hdata : ∀ c, IsCell dem c → HasData dem c) :
    slopeXD4 dem i j = if differenceX dem i j < differenceY dem i j then 0 else
      steeper (descent dem (i, j) (i - 1, j)) (-descent dem (i, j) (i + 1, j)) := by
  unfold slopeXD4 differenceX differenceY
  rw [if_neg (hdata _ hint.isCell.1), slopesD4_interior hint hdata]
  dsimp only
  rw [abs_neg, abs_steeper, abs_steeper, max_comm |descent dem (i, j) (i, j + 1)|]
  split_ifs with hgt hlt
  · exact absurd hlt hgt.not_gt
  · rfl
  · rfl
  · rfl

omit [IsStrictOrderedRing K] in
theorem slopeYD4_interior (hint : IsInterior dem (i, j)) (hdata : ∀ c, IsCell dem c → HasData dem c) :
    slopeYD4 dem i j = if differenceX dem i j < differenceY dem i j then
      -steeper (descent dem (i, j) (i, j + 1)) (-descent dem (i, j) (i, j - 1)) else 0 := by
  unfold slopeYD4 differenceX differenceY
  rw [if_neg (hdata _ hint.isCell.1), slopesD4_interior hint hdata]
  dsimp only
  rw [abs_neg, abs_steeper, abs_steeper, max_comm |descent dem (i, j) (i, j + 1)|]
  split_ifs with hgt hlt
  · exact absurd hlt hgt.not_gt
  · rfl
  · rfl
  · rfl

/-- D4 slopes follow their law at an interior cell exactly when the ground around it is flat or its steepest descent
lies along the axis of the greatest difference. -/
theorem d4Law_iff_descends (dem sx sy : Databox K) (i j : ℤ) (hdx : 0 < dem.dx) (hdy : 0 < dem.dy) (hsx : sx.nx = dem.nx)
    (hsy : sy.nx = dem.nx) (hdata : ∀ c, IsCell dem c → HasData dem c) (hint : IsInterior dem (i, j)) :
    D4Law dem (computeSlopeXD4 dem sx) (computeSlopeYD4 dem sy) (i, j) ↔ DescendsAlongDifference dem i j := by
  have hcell := hint.isCell.1
  have hx : coeffAt (computeSlopeXD4 dem sx) i j = slopeXD4 dem i j := coeffAt_setGrid _ hsx hcell
  have hy : coeffAt (computeSlopeYD4 dem sy) i j = slopeYD4 dem i j := coeffAt_setGrid _ hsy hcell
  have hdescentX : descentX dem i j ≤ differenceX dem i j := max_le_max (le_abs_self _) (le_abs_self _)
  have hdescentY : descentY dem i j ≤ differenceY dem i j := max_le_max (le_abs_self _) (le_abs_self _)
  have hnonneg : 0 ≤ differenceX dem i j := (abs_nonneg _).trans (le_max_left _ _)
  have hnonneg' : 0 ≤ differenceY dem i j := (abs_nonneg _).trans (le_max_left _ _)
  rw [d4Law_iff (hdata _ hcell), hx, hy, isSteepest_iff hdx hdy, isSteepest_iff hdx hdy, isSteepest_iff hdx hdy,
    isSteepest_iff hdx hdy, slopeXD4_interior hint hdata, slopeYD4_interior hint hdata]
  rcases lt_or_ge (differenceX dem i j) (differenceY dem i j) with hlt | hge
  · have hchoice := choice_iff (max_comm (descent dem (i, j) (i, j - 1)) (descent dem (i, j) (i, j + 1)))
      (max_comm |descent dem (i, j) (i, j - 1)| |descent dem (i, j) (i, j + 1)|) (hdescentX.trans hlt.le)
    change _ ↔ differenceY dem i j = 0 ∨ 0 < descentY dem i j ∧ descentX dem i j ≤ descentY dem i j at hchoice
    have hne : differenceY dem i j ≠ 0 := (hnonneg.trans_lt hlt).ne'
    rw [or_iff_right hne] at hchoice
    have hright : DescendsAlongDifference dem i j ↔ 0 < descentY dem i j ∧ descentX dem i j ≤ descentY dem i j := by
      constructor
      · rintro (h | h | h)
        · exact absurd h.2 hne
        · exact absurd h.1 (not_le.mpr hlt)
        · exact h.2
      · exact fun h => Or.inr (Or.inr ⟨hlt, h⟩)
    rw [hright, ← hchoice, if_pos hlt, if_pos hlt]
    simp only [true_or, true_and, lt_self_iff_false, false_imp_iff, neg_pos, neg_lt_zero]
    have hswap : ∀ d : K, (0 < d ∧ descentX dem i j ≤ d ∧ descentY dem i j ≤ d) ↔
        0 < d ∧ descentY dem i j ≤ d ∧ descentX dem i j ≤ d := fun d => and_congr_right fun _ => and_comm
    rw [hswap, hswap]
    rfl
  · have hchoice := choice_iff (w := descent dem (i, j) (i - 1, j)) rfl rfl (hdescentY.trans hge)
    change _ ↔ differenceX dem i j = 0 ∨ 0 < descentX dem i j ∧ descentY dem i j ≤ descentX dem i j at hchoice
    have hzero : differenceX dem i j = 0 → differenceY dem i j = 0 := fun h => le_antisymm (h ▸ hge) hnonneg'
    have hright : DescendsAlongDifference dem i j ↔
        differenceX dem i j = 0 ∨ 0 < descentX dem i j ∧ descentY dem i j ≤ descentX dem i j := by
      constructor
      · rintro (h | h | h)
        · exact Or.inl h.1
        · exact Or.inr h.2
        · exact absurd h.1 (not_lt.mpr hge)
      · rintro (h | h)
        · exact Or.inl ⟨h, hzero h⟩
        · exact Or.inr (Or.inl ⟨hge, h⟩)
    rw [hright, ← hchoice, if_neg (not_lt.mpr hge), if_neg (not_lt.mpr hge)]
    simp only [or_true, true_and, lt_self_iff_false, false_imp_iff, and_true]
    rfl

end

/-! ## A pit below a steep wall -/

/-- The cell in the middle lies lower than its neighbours, most of all lower than the western one. -/
def pitDem : Databox ℚ := ⟨3, 3, 1, 0, 0, 0, 1, 1, 1, fun n => [5, 2, 5, 10, 0, 1, 5, 2, 5].getD n.toNat 0⟩

theorem pitDem_hasData (c : ℤ × ℤ) (hc : IsCell pitDem c) : HasData pitDem c := by
  obtain ⟨i, j⟩ := c
  obtain ⟨⟨hi, hi'⟩, hj, hj'⟩ := hc
  change i < 3 at hi'
  change j < 3 at hj'
  dsimp only at hi hj
  interval_cases i <;> interval_cases j <;> decide +kernel

theorem pitDem_law_iff : D4Law pitDem (computeSlopeXD4 pitDem pitDem) (computeSlopeYD4 pitDem pitDem) (1, 1) ↔
    DescendsAlongDifference pitDem 1 1 :=
  d4Law_iff_descends pitDem pitDem pitDem 1 1 one_pos one_pos rfl rfl pitDem_hasData (by unfold IsInterior; decide)

/-- The slope of the wall drains the pit to the east, uphill. -/
theorem pitDem_not_d4Law : IsInterior pitDem (1, 1) ∧ (∀ c, IsCell pitDem c → HasData pitDem c) ∧
    ¬ D4Law pitDem (computeSlopeXD4 pitDem pitDem) (computeSlopeYD4 pitDem pitDem) (1, 1) := by
  refine ⟨by unfold IsInterior; decide, pitDem_hasData, fun h => ?_⟩
  have hx : coeffAt (computeSlopeXD4 pitDem pitDem) 1 1 = -10 := by decide +kernel
  have hy : coeffAt (computeSlopeYD4 pitDem pitDem) 1 1 = 0 := by decide +kernel
  obtain ⟨⟨ii, jj⟩, htest, hlower, -⟩ := h.steepest (Or.inl (hx.trans_ne (by decide)))
  have hcases := (parent_iff.mp htest).2
  dsimp only at hcases hlower
  rw [hx, hy] at hcases
  have heast : ii = 2 ∧ jj = 1 := by grind
  obtain ⟨rfl, rfl⟩ := heast
  exact absurd hlower (by decide +kernel)

end ParFlow.Topo
