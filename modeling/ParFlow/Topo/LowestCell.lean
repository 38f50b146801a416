import ParFlow.Topo.SlopeDefs

/-! The search for the lowest cell. It reads cells of the grid only, and it does not depend on the value that it starts
with once it has found a cell. -/

namespace ParFlow.Topo

open IntLoop
open ParFlow.Pfb (Databox)

section

variable {K : Type} (dem dem' : Databox K)

/-- Two databoxes that differ outside their grid at most. -/
structure SameCells : Prop where
  nx_eq : dem'.nx = dem.nx
  ny_eq : dem'.ny = dem.ny
  dx_eq : dem'.dx = dem.dx
  dy_eq : dem'.dy = dem.dy
  coeff_eq : ∀ c, IsCell dem c → coeffAt dem' c.1 c.2 = coeffAt dem c.1 c.2

variable {dem dem'} {c d : ℤ × ℤ}

theorem SameCells.refl (dem : Databox K) : SameCells dem dem := ⟨rfl, rfl, rfl, rfl, fun _ _ => rfl⟩

theorem SameCells.isCell_iff (h : SameCells dem dem') : IsCell dem' c ↔ IsCell dem c := by
  unfold IsCell
  rw [h.nx_eq, h.ny_eq]

theorem mem_around {i j : ℤ} : d ∈ around i j ↔ (i - 1 ≤ d.1 ∧ d.1 ≤ i + 1) ∧ j - 1 ≤ d.2 ∧ d.2 ≤ j + 1 := by
  rw [around, mem_rows, mem_upto, mem_upto, Int.lt_add_one_iff, Int.lt_add_one_iff]

theorem around_nodup (i j : ℤ) : (around i j).Nodup := rows_nodup (upto_nodup _ _) (upto_nodup _ _)

end

section

variable {K : Type} [Field K] [LinearOrder K] {dem dem' : Databox K} {cells : List (ℤ × ℤ)} {b b' : K} {d : ℤ × ℤ}

theorem searchStep_of_notCell (s : Lowest K) (hd : ¬ IsCell dem d) : searchStep dem s d = s := by
  unfold searchStep
  rw [if_pos]
  unfold IsCell at hd
  omega

theorem searchStep_of_cell (s : Lowest K) (hd : IsCell dem d) : searchStep dem s d =
    if coeffAt dem d.1 d.2 < s.zmin then
      ⟨coeffAt dem d.1 d.2, d.1, d.2, if coeffAt dem d.1 d.2 = nodata then s.nodata + 1 else s.nodata⟩
    else ⟨s.zmin, s.imin, s.jmin, if coeffAt dem d.1 d.2 = nodata then s.nodata + 1 else s.nodata⟩ := by
  obtain ⟨⟨hi, hi'⟩, hj, hj'⟩ := hd
  unfold searchStep
  rw [if_neg (by omega)]
  by_cases hdata : coeffAt dem d.1 d.2 = nodata
  · simp only [if_pos hdata]
  · simp only [if_neg hdata]

/-- What the search knows: a lower bound of the cells that it has met, which is one of them or the start value. -/
structure IsLowest (dem : Databox K) (b : K) (cells : List (ℤ × ℤ)) (s : Lowest K) : Prop where
  le_bound : s.zmin ≤ b
  le_cell : ∀ d ∈ cells, IsCell dem d → s.zmin ≤ coeffAt dem d.1 d.2
  found : s.zmin = b ∧ s.imin = -9999 ∧ s.jmin = -9999 ∨ (s.imin, s.jmin) ∈ cells ∧ IsCell dem (s.imin, s.jmin) ∧
    coeffAt dem s.imin s.jmin = s.zmin ∧ s.zmin < b
  nodata_eq : s.nodata = cells.countP fun d => decide (IsCell dem d ∧ coeffAt dem d.1 d.2 = nodata)

theorem IsLowest.searchStep {s : Lowest K} (h : IsLowest dem b cells s) (d : ℤ × ℤ) :
    IsLowest dem b (cells ++ [d]) (searchStep dem s d) := by
  obtain ⟨hbound, hcell, hfound, hnodata⟩ := h
  by_cases hd : IsCell dem d
  · rw [searchStep_of_cell s hd]
    have hcount : (if coeffAt dem d.1 d.2 = nodata then s.nodata + 1 else s.nodata) =
        ((cells ++ [d]).countP fun d => decide (IsCell dem d ∧ coeffAt dem d.1 d.2 = nodata) : ℕ) := by
      rw [List.countP_append, Nat.cast_add, ← hnodata]
      by_cases hdata : coeffAt dem d.1 d.2 = nodata
      · simp [hd, hdata]
      · simp [hdata]
    rcases lt_or_ge (coeffAt dem d.1 d.2) s.zmin with hlt | hge
    · rw [if_pos hlt]
      refine ⟨hlt.le.trans hbound, ?_, Or.inr ⟨by simp, hd, rfl, hlt.trans_le hbound⟩, hcount⟩
      intro e he hecell
      rcases List.mem_append.mp he with he | he
      · exact hlt.le.trans (hcell e he hecell)
      · rw [List.mem_singleton.mp he]
    · rw [if_neg (not_lt.mpr hge)]
      refine ⟨hbound, ?_, hfound.imp_right fun h => ⟨List.mem_append_left _ h.1, h.2⟩, hcount⟩
      intro e he hecell
      rcases List.mem_append.mp he with he | he
      · exact hcell e he hecell
      · exact hge.trans_eq (by rw [List.mem_singleton.mp he])
  · rw [searchStep_of_notCell s hd]
    refine ⟨hbound, ?_, hfound.imp_right fun h => ⟨List.mem_append_left _ h.1, h.2⟩, ?_⟩
    · intro e he hecell
      rcases List.mem_append.mp he with he | he
      · exact hcell e he hecell
      · exact absurd (List.mem_singleton.mp he ▸ hecell) hd
    · rw [hnodata, List.countP_append]
      simp [hd]

theorem findLowest_isLowest (dem : Databox K) (b : K) (cells : List (ℤ × ℤ)) :
    IsLowest dem b cells (findLowest dem b cells) := by
  unfold findLowest
  induction cells using List.reverseRecOn with
  | nil => exact ⟨le_rfl, fun d hd => absurd hd List.not_mem_nil, Or.inl ⟨rfl, rfl, rfl⟩, rfl⟩
  | append_singleton cells d ih =>
    rw [List.foldl_append]
    exact ih.searchStep d

/-- A greater start value makes no difference to a search that finds a cell. -/
theorem findLowest_bound (hb : b ≤ b') (h : (findLowest dem b cells).zmin < b) :
    findLowest dem b' cells = findLowest dem b cells := by
  suffices hboth : findLowest dem b' cells = findLowest dem b cells ∨
      (findLowest dem b cells).zmin = b ∧ b ≤ (findLowest dem b' cells).zmin ∧
        (findLowest dem b' cells).nodata = (findLowest dem b cells).nodata by
    exact hboth.resolve_right fun hnone => h.ne hnone.1
  clear h
  unfold findLowest
  induction cells using List.reverseRecOn with
  | nil => exact Or.inr ⟨rfl, hb, rfl⟩
  | append_singleton cells d ih =>
    simp only [List.foldl_append, List.foldl_cons, List.foldl_nil]
    rcases ih with heq | ⟨hzmin, hle, hnodata⟩
    · exact Or.inl (heq ▸ rfl)
    · by_cases hd : IsCell dem d
      · rw [searchStep_of_cell _ hd, searchStep_of_cell _ hd, hzmin, hnodata]
        rcases lt_or_ge (coeffAt dem d.1 d.2) b with hlt | hge
        · rw [if_pos hlt, if_pos (hlt.trans_le hle)]
          exact Or.inl rfl
        · rw [if_neg (not_lt.mpr hge)]
          split_ifs
          · exact Or.inr ⟨rfl, hge, rfl⟩
          · exact Or.inr ⟨rfl, hge, rfl⟩
          · exact Or.inr ⟨rfl, hle, rfl⟩
          · exact Or.inr ⟨rfl, hle, rfl⟩
      · rw [searchStep_of_notCell _ hd, searchStep_of_notCell _ hd]
        exact Or.inr ⟨hzmin, hle, hnodata⟩

/-- The search reads cells of the grid only. -/
theorem SameCells.findLowest_eq (h : SameCells dem dem') : findLowest dem' b cells = findLowest dem b cells := by
  unfold findLowest
  congr 1
  funext s d
  by_cases hd : IsCell dem d
  · rw [searchStep_of_cell _ hd, searchStep_of_cell _ (h.isCell_iff.mpr hd), h.coeff_eq d hd]
  · rw [searchStep_of_notCell _ hd, searchStep_of_notCell _ (mt h.isCell_iff.mp hd)]

end

end ParFlow.Topo
