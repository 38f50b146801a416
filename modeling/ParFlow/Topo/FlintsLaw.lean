import ParFlow.Lib.ForestWalk
import ParFlow.Topo.LowestCell
import ParFlow.Topo.UpstreamArea

/-! Flint's law reaches every cell once: the drainage of the D8 scheme is a forest whose roots are the local minima and
the cells of the coast. -/

namespace ParFlow.Topo

open FuelRun Relation ForestWalk
open ParFlow.Pfb (Databox)

section

variable {K : Type} [Field K] [LinearOrder K] (dem : Databox K) (c : ℤ × ℤ)

/-- Elevations lie above the mark of a cell without data, and below the start value of the search. -/
def ValidElevations : Prop :=
  ∀ c, IsCell dem c → HasData dem c → nodata < coeffAt dem c.1 c.2 ∧ coeffAt dem c.1 c.2 < 100000000000.0

def IsLocalMin : Prop := ∀ d ∈ around c.1 c.2, IsCell dem d → coeffAt dem c.1 c.2 ≤ coeffAt dem d.1 d.2

def OnCoast : Prop := ∃ d ∈ around c.1 c.2, IsCell dem d ∧ ¬ HasData dem d

/-- A cell at which the recursion starts. -/
def IsStart : Prop := IsLocalMin dem c ∨ OnCoast dem c

/-- The lowest cell next to `c`. -/
def childCell : ℤ × ℤ := ((lowestOther dem c.1 c.2).imin, (lowestOther dem c.1 c.2).jmin)

/-- The cells that have `c` as their child. -/
def parentsOf : List (ℤ × ℤ) :=
  (around c.1 c.2).filter fun d => decide (IsCell dem c ∧ IsCell dem d ∧ computeTestParentD8 c.1 c.2 d.1 d.2 dem = 1)

/-- The number of lower cells. -/
def rankD8 : ℕ := ((gridLoop dem.nx dem.ny).toFinset.filter fun d => coeffAt dem d.1 d.2 < coeffAt dem c.1 c.2).card

end

section

variable {K : Type} [Field K] [LinearOrder K] {dem : Databox K} {c d : ℤ × ℤ}

/-! ## Children -/

theorem mem_around_self (c : ℤ × ℤ) : c ∈ around c.1 c.2 := mem_around.mpr (by omega)

theorem mem_others : c ∈ (around d.1 d.2).filter (fun e => !(e == (d.1, d.2))) ↔ c ∈ around d.1 d.2 ∧ c ≠ d := by
  simp

theorem testParent_one (h : computeTestParentD8 c.1 c.2 d.1 d.2 dem = 1) :
    (HasData dem c ∧ HasData dem d) ∧ (|c.1 - d.1| ≤ 1 ∧ |c.2 - d.2| ≤ 1) ∧ c = childCell dem d ∧
      coeffAt dem c.1 c.2 < coeffAt dem d.1 d.2 := by
  unfold computeTestParentD8 at h
  split_ifs at h with hdata hnear hmin hchild
  · exact absurd h zero_ne_one
  · exact absurd h zero_ne_one
  · exact absurd h zero_ne_one
  · rw [not_or] at hdata
    rw [not_or, not_lt, not_lt] at hnear
    exact ⟨hdata, hnear, Prod.ext hchild.1.symm hchild.2.1.symm, hchild.2.2⟩
  · exact absurd h zero_ne_one

/-- The tests of the recursion and those of its start agree, also under ties and next to cells without data. -/
theorem testParent_iff (hvalid : ValidElevations dem) (hd : IsCell dem d) :
    computeTestParentD8 c.1 c.2 d.1 d.2 dem = 1 ↔ HasData dem d ∧ ¬ IsStart dem d ∧ c = childCell dem d := by
  have hlowest := findLowest_isLowest dem 100000000000.0 ((around d.1 d.2).filter fun e => !(e == (d.1, d.2)))
  constructor
  · intro h
    obtain ⟨⟨hc, hdata⟩, ⟨hi, hj⟩, hchild, hlt⟩ := testParent_one h
    rcases hlowest.found with ⟨-, himin, -⟩ | ⟨hmem, hcell, hvalue, -⟩
    · have hfar : c.1 = -9999 := (congrArg Prod.fst hchild).trans himin
      have := (abs_le.mp hi).1
      have := hd.1.1
      omega
    · change childCell dem d ∈ _ at hmem
      change IsCell dem (childCell dem d) at hcell
      change coeffAt dem (childCell dem d).1 (childCell dem d).2 = _ at hvalue
      rw [← hchild] at hmem hcell hvalue
      refine ⟨hdata, not_or.mpr ⟨fun hmin => ?_, fun hcoast => ?_⟩, hchild⟩
      · exact absurd hlt (not_lt.mpr (hmin c (mem_others.mp hmem).1 hcell))
      · obtain ⟨e, he, hecell, hnodata⟩ := hcoast
        have hed : e ≠ d := fun h => hnodata (h ▸ hdata)
        have hle := hlowest.le_cell e (mem_others.mpr ⟨he, hed⟩) hecell
        rw [not_not.mp hnodata, ← hvalue] at hle
        exact absurd (hvalid c hcell hc).1 (not_lt.mpr hle)
  · rintro ⟨hdata, hstart, hchild⟩
    obtain ⟨hmin, hcoast⟩ := not_or.mp hstart
    obtain ⟨e, he, hecell, hlt⟩ : ∃ e ∈ around d.1 d.2, IsCell dem e ∧ coeffAt dem e.1 e.2 < coeffAt dem d.1 d.2 := by
      by_contra hnone
      exact hmin fun e he hecell => not_lt.mp fun hlt => hnone ⟨e, he, hecell, hlt⟩
    have hed : e ≠ d := fun h => absurd hlt (by rw [h]; exact lt_irrefl _)
    have hle := hlowest.le_cell e (mem_others.mpr ⟨he, hed⟩) hecell
    rcases hlowest.found with ⟨hbound, -, -⟩ | ⟨hmem, hcell, hvalue, -⟩
    · rw [hbound] at hle
      exact absurd ((hle.trans_lt hlt).trans (hvalid d hd hdata).2) (lt_irrefl _)
    · change childCell dem d ∈ _ at hmem
      change IsCell dem (childCell dem d) at hcell
      change coeffAt dem (childCell dem d).1 (childCell dem d).2 = _ at hvalue
      rw [← hchild] at hmem hcell hvalue
      have haround := (mem_others.mp hmem).1
      have hnear := mem_around.mp haround
      have hc : HasData dem c := not_not.mp fun h => hcoast ⟨c, haround, hcell, h⟩
      unfold computeTestParentD8
      have hzmin : (lowestOther dem d.1 d.2).zmin ≠ nodata := fun h => hc (hvalue.trans h)
      rw [if_neg (not_or.mpr ⟨hc, hdata⟩), if_neg (by rw [not_or, not_lt, not_lt, abs_le, abs_le]; omega), if_neg hzmin]
      exact if_pos ⟨(congrArg Prod.fst hchild).symm, (congrArg Prod.snd hchild).symm, (hvalue.trans_le hle).trans_lt hlt⟩

/-- The child is not set at the cells where the recursion starts. -/
theorem childD8_eq_nodata_iff (hvalid : ValidElevations dem) (hc : IsCell dem c) (hdata : HasData dem c) :
    childD8 dem c.1 c.2 = nodata ↔ IsStart dem c := by
  have hlowest := findLowest_isLowest dem 100000000000.0 (around c.1 c.2)
  have hself := hlowest.le_cell c (mem_around_self c) hc
  obtain ⟨hmem, hcell, hvalue, -⟩ := hlowest.found.resolve_left fun h => by
    rw [h.1] at hself
    exact absurd (hvalid c hc hdata).2 (not_lt.mpr hself)
  unfold childD8
  constructor
  · intro h
    dsimp only at h
    split_ifs at h with hmin
    · exact Or.inl fun d hd hdcell => hmin ▸ hlowest.le_cell d hd hdcell
    · exact Or.inr ⟨_, hmem, hcell, not_not.mpr h⟩
  · intro h
    dsimp only
    split_ifs with hmin
    · rfl
    · rcases h with hlocal | ⟨d, hd, hdcell, hnodata⟩
      · exact absurd (le_antisymm hself ((hlocal _ hmem hcell).trans_eq hvalue)) hmin
      · by_contra hne
        have hle := hlowest.le_cell d hd hdcell
        rw [not_not.mp hnodata, ← hvalue] at hle
        exact absurd (hvalid _ hcell hne).1 (not_lt.mpr hle)

/-! ## The forest -/

theorem mem_parentsOf : d ∈ parentsOf dem c ↔
    (IsCell dem c ∧ IsCell dem d) ∧ computeTestParentD8 c.1 c.2 d.1 d.2 dem = 1 := by
  rw [parentsOf, List.mem_filter, decide_eq_true_iff, ← and_assoc]
  constructor
  · exact fun h => ⟨⟨h.1.2, h.2.1⟩, h.2.2⟩
  · intro h
    obtain ⟨-, ⟨hi, hj⟩, -⟩ := testParent_one h.2
    rw [abs_le] at hi hj
    exact ⟨⟨mem_around.mpr (by omega), h.1.1⟩, h.1.2, h.2⟩

omit [Field K] in
theorem rankD8_lt (hd : IsCell dem c) (h : coeffAt dem c.1 c.2 < coeffAt dem d.1 d.2) : rankD8 dem c < rankD8 dem d := by
  refine Finset.card_lt_card (Finset.ssubset_iff_subset_ne.mpr ⟨fun e he => ?_, fun heq => ?_⟩)
  · rw [Finset.mem_filter] at he ⊢
    exact ⟨he.1, he.2.trans h⟩
  · have hmem : c ∈ (gridLoop dem.nx dem.ny).toFinset.filter fun e => coeffAt dem e.1 e.2 < coeffAt dem c.1 c.2 :=
      heq ▸ Finset.mem_filter.mpr ⟨List.mem_toFinset.mpr (mem_gridLoop.mpr hd), h⟩
    exact lt_irrefl _ (Finset.mem_filter.mp hmem).2

theorem isForest_parentsOf (hvalid : ValidElevations dem) : IsForest (parentsOf dem) (IsCell dem) (rankD8 dem)
    (gridLoop dem.nx dem.ny).toFinset.card where
  nodup c := (around_nodup _ _).filter _
  node c d h := (mem_parentsOf.mp h).1
  unique c c' d h h' := by
    obtain ⟨⟨-, hd⟩, htest⟩ := mem_parentsOf.mp h
    obtain ⟨-, htest'⟩ := mem_parentsOf.mp h'
    exact ((testParent_iff hvalid hd).mp htest).2.2.trans ((testParent_iff hvalid hd).mp htest').2.2.symm
  rank_lt c d h := rankD8_lt (mem_parentsOf.mp h).1.1 (testParent_one (mem_parentsOf.mp h).2).2.2.2
  rank_le c _ := Finset.card_filter_le _ _

/-- A databox on the grid of the elevations. -/
def OnGrid (dem demflint : Databox K) : Prop := demflint.nx = dem.nx ∧ demflint.ny = dem.ny

omit [Field K] [LinearOrder K] in
theorem slots_databox (dem : Databox K) : Slots (IsCell dem) (OnGrid dem) (fun s c => coeffAt s c.1 c.2)
    (fun s c v => setCoeff s c.1 c.2 v) where
  good _ _ _ h := h
  get_set _ _ _ := coeffAt_setCoeff _ _
  get_set_of_ne _ _ _ _ h hc hd hne := coeffAt_setCoeff_of_ne h.1 hc hd hne

/-- The new elevation of a cell, from that of its child. -/
def FlintData.rise (P : FlintData K) (z : K) (d : ℤ × ℤ) : K := z + P.increment d.1 d.2

/-- The tests that the recursion makes before it asks for the parent take nothing away. -/
theorem flintTest_eq_one_iff {s : Databox K} (hc : IsCell dem c) (hnx : s.nx = dem.nx) (hny : s.ny = dem.ny) :
    (if coeffAt dem d.1 d.2 = nodata then (0 : ℤ)
      else if d.1 < 0 ∨ d.2 < 0 ∨ d.1 > s.nx - 1 ∨ d.2 > s.ny - 1 then 0
      else if d.1 = c.1 ∧ d.2 = c.2 then 0
      else computeTestParentD8 c.1 c.2 d.1 d.2 dem) = 1 ↔
    IsCell dem c ∧ IsCell dem d ∧ computeTestParentD8 c.1 c.2 d.1 d.2 dem = 1 := by
  constructor
  · intro h
    split_ifs at h with hdata hcell hself
    · exact absurd h zero_ne_one
    · exact absurd h zero_ne_one
    · exact absurd h zero_ne_one
    · refine ⟨hc, ?_, h⟩
      unfold IsCell
      omega
  · rintro ⟨-, ⟨hdi, hdj⟩, htest⟩
    obtain ⟨⟨-, hdata⟩, -, -, hlt⟩ := testParent_one htest
    have hne : ¬ (d.1 = c.1 ∧ d.2 = c.2) := fun h => by
      rw [h.1, h.2] at hlt
      exact lt_irrefl _ hlt
    rw [if_neg hdata, if_neg (by omega), if_neg hne, htest]

theorem isWalk_flint (P : FlintData K) : IsWalk (parentsOf P.dem) (fun c => IsCell P.dem c ∧ HasData P.dem c) (OnGrid P.dem)
    (fun s c => coeffAt s c.1 c.2) (fun s c v => setCoeff s c.1 c.2 v) notComputed P.rise
    (fun fuel c s => computeFlintsLawRec P fuel c.1 c.2 s) where
  step n c s hc hs := by
    obtain ⟨hcell, hdata⟩ := hc
    obtain ⟨⟨hi, hi'⟩, hj, hj'⟩ := id hcell
    obtain ⟨hnx, hny⟩ := hs
    rw [computeFlintsLawRec, if_neg hdata, if_neg (by omega), parentsOf, List.foldlM_filter]
    congr 1
    funext s' d
    have htest := flintTest_eq_one_iff (d := d) hcell hnx hny
    by_cases hparent : IsCell P.dem c ∧ IsCell P.dem d ∧ computeTestParentD8 c.1 c.2 d.1 d.2 P.dem = 1
    · rw [if_pos (decide_eq_true hparent)]
      exact if_congr (and_iff_right (htest.mpr hparent)) rfl rfl
    · rw [if_neg (mt of_decide_eq_true hparent)]
      exact if_neg fun h => hparent (htest.mp h.1)
  live c d _ h := ⟨(mem_parentsOf.mp h).1.2, (testParent_one (mem_parentsOf.mp h).2).1.2⟩

/-! ## The loop -/

/-- A root of the forest: a cell without data, or one where the recursion starts. -/
def IsRoot (dem : Databox K) (c : ℤ × ℤ) : Prop := HasData dem c → IsStart dem c

theorem not_mem_of_isRoot (hvalid : ValidElevations dem) (hd : IsRoot dem d) (c : ℤ × ℤ) : d ∉ parentsOf dem c := by
  intro h
  obtain ⟨⟨-, hcell⟩, htest⟩ := mem_parentsOf.mp h
  obtain ⟨hdata, hstart, -⟩ := (testParent_iff hvalid hcell).mp htest
  exact hstart (hd hdata)

theorem exists_parentsOf (hvalid : ValidElevations dem) (hd : IsCell dem d) (hroot : ¬ IsRoot dem d) :
    ∃ c, d ∈ parentsOf dem c := by
  obtain ⟨hdata, hstart⟩ := Classical.not_imp.mp hroot
  have htest := (testParent_iff hvalid hd).mpr ⟨hdata, hstart, rfl⟩
  refine ⟨childCell dem d, mem_parentsOf.mpr ⟨⟨?_, hd⟩, htest⟩⟩
  have hlowest := findLowest_isLowest dem 100000000000.0 ((around d.1 d.2).filter fun e => !(e == (d.1, d.2)))
  rcases hlowest.found with ⟨-, himin, -⟩ | ⟨-, hcell, -⟩
  · obtain ⟨-, ⟨hi, -⟩, -⟩ := testParent_one htest
    have hfar : (childCell dem d).1 = -9999 := himin
    have := (abs_le.mp hi).1
    have := hd.1.1
    omega
  · exact hcell

variable {child s : Databox K} {P : FlintData K}

/-- A root gets its value, and the cells upstream of it follow. -/
theorem flintsLawCell_root (hvalid : ValidElevations P.dem)
    (hchild : ∀ c, IsCell P.dem c → coeffAt child c.1 c.2 = childD8 P.dem c.1 c.2) (hroot : IsRoot P.dem c)
    (hc : IsCell P.dem c) (hs : OnGrid P.dem s)
    (hunset : ∀ d, TransGen (Kid (parentsOf P.dem)) c d → coeffAt s d.1 d.2 = notComputed) :
    ∃ s', Returns (fun fuel => flintsLawCell P child fuel s c) s' ∧ OnGrid P.dem s' ∧
      coeffAt s' c.1 c.2 = coeffAt P.dem c.1 c.2 ∧
      (∀ d, TransGen (Kid (parentsOf P.dem)) c d → Risen (parentsOf P.dem) (fun s c => coeffAt s c.1 c.2) P.rise s' d) ∧
      ∀ d, IsCell P.dem d → ¬ ReflTransGen (Kid (parentsOf P.dem)) c d → coeffAt s' d.1 d.2 = coeffAt s d.1 d.2 := by
  have hf := isForest_parentsOf hvalid
  -- the elevation planted at the root is not among those that the walk sets
  have hnode : ∀ d, TransGen (Kid (parentsOf P.dem)) c d → IsCell P.dem d ∧ d ≠ c := by
    intro d h
    obtain ⟨e, -, he⟩ := TransGen.tail'_iff.mp h
    exact ⟨(hf.node e d he).2, fun heq => hf.not_above_self c (heq ▸ h)⟩
  by_cases hdata : HasData P.dem c
  · have hstart : coeffAt child c.1 c.2 = nodata := (hchild c hc).trans ((childD8_eq_nodata_iff hvalid hc hdata).mpr (hroot hdata))
    obtain ⟨s', hret, hs', hrisen, hkeep⟩ := walk_returns hf (slots_databox P.dem) (isWalk_flint P) (v := c)
      (s := setCoeff s c.1 c.2 (coeffAt P.dem c.1 c.2)) ⟨hc, hdata⟩ hc hs fun d h => by
        rw [coeffAt_setCoeff_of_ne hs.1 hc (hnode d h).1 (hnode d h).2]
        exact hunset d h
    refine ⟨s', ?_, hs', (hkeep c hc (hf.not_above_self c)).trans (coeffAt_setCoeff _ _), hrisen, fun d hd hnot => ?_⟩
    · simp only [flintsLawCell, if_neg (show ¬ coeffAt P.dem c.1 c.2 = nodata from hdata), if_pos hstart]
      exact hret
    · rw [hkeep d hd fun h => hnot h.to_reflTransGen]
      exact coeffAt_setCoeff_of_ne hs.1 hc hd fun h => hnot (h ▸ ReflTransGen.refl)
  · have hnodata : coeffAt P.dem c.1 c.2 = nodata := not_not.mp hdata
    have hnone : ∀ d, ¬ TransGen (Kid (parentsOf P.dem)) c d := by
      intro d h
      obtain ⟨e, he, -⟩ := TransGen.head'_iff.mp h
      exact hdata (testParent_one (mem_parentsOf.mp he).2).1.1
    refine ⟨setCoeff s c.1 c.2 nodata, ?_, hs, (coeffAt_setCoeff _ _).trans hnodata.symm, fun d h => absurd h (hnone d),
      fun d hd hnot => coeffAt_setCoeff_of_ne hs.1 hc hd fun h => hnot (h ▸ ReflTransGen.refl)⟩
    simp only [flintsLawCell, if_pos hnodata]
    exact returns_const _

theorem flintsLawCell_other (hvalid : ValidElevations P.dem)
    (hchild : ∀ c, IsCell P.dem c → coeffAt child c.1 c.2 = childD8 P.dem c.1 c.2) (hroot : ¬ IsRoot P.dem c)
    (hc : IsCell P.dem c) (s : Databox K) : Returns (fun fuel => flintsLawCell P child fuel s c) s := by
  obtain ⟨hdata, hstart⟩ := Classical.not_imp.mp hroot
  have hne : ¬ coeffAt child c.1 c.2 = nodata := by
    rw [hchild c hc, childD8_eq_nodata_iff hvalid hc hdata]
    exact hstart
  simp only [flintsLawCell, if_neg (show ¬ coeffAt P.dem c.1 c.2 = nodata from hdata), if_neg hne]
  exact returns_const s

variable (child) in
theorem flintsLoop_returns (hvalid : ValidElevations P.dem)
    (hchild : ∀ c, IsCell P.dem c → coeffAt child c.1 c.2 = childD8 P.dem c.1 c.2) (hs : OnGrid P.dem s)
    (hunset : ∀ c, IsCell P.dem c → coeffAt s c.1 c.2 = notComputed) :
    ∃ s', Returns (fun fuel => (gridLoop P.dem.nx P.dem.ny).foldlM (flintsLawCell P child fuel) s) s' ∧
      ∀ d, IsCell P.dem d → (IsRoot P.dem d → coeffAt s' d.1 d.2 = coeffAt P.dem d.1 d.2) ∧
        (¬ IsRoot P.dem d → ∃ c, IsCell P.dem c ∧ (∀ c' : ℤ × ℤ, computeTestParentD8 c'.1 c'.2 d.1 d.2 P.dem = 1 ↔ c' = c) ∧
          coeffAt s' d.1 d.2 = coeffAt s' c.1 c.2 + P.increment d.1 d.2) := by
  have hf := isForest_parentsOf hvalid
  obtain ⟨s', hret, hdone, -⟩ := sweep_returns (OnGrid P.dem) (fun s c => coeffAt s c.1 c.2) P.rise (IsRoot P.dem)
    (fun c => coeffAt P.dem c.1 c.2) (flintsLawCell P child) hf (fun d hd c => not_mem_of_isRoot hvalid hd c)
    (fun c s hroot hc hs hunset => flintsLawCell_root hvalid hchild hroot hc hs hunset)
    (fun c s hroot hc _ => flintsLawCell_other hvalid hchild hroot hc s)
    (gridLoop P.dem.nx P.dem.ny) (fun c hc => mem_gridLoop.mp hc) (gridLoop_nodup _ _) hs fun c _ _ d hd => by
      obtain ⟨e, -, he⟩ := TransGen.tail'_iff.mp hd
      exact hunset d (hf.node e d he).2
  refine ⟨s', hret, fun d hd => ⟨fun hroot => (hdone d (mem_gridLoop.mpr hd) hroot).1, fun hroot => ?_⟩⟩
  obtain ⟨c, hc⟩ := exists_parentsOf hvalid hd hroot
  obtain ⟨r, hr, hrcell, habove⟩ := hf.exists_root (fun d hd hroot => exists_parentsOf hvalid hd hroot) hd
  have hstrict : TransGen (Kid (parentsOf P.dem)) r d := by
    rcases ReflTransGen.cases_tail habove with rfl | ⟨e, hre, hed⟩
    · exact absurd hr hroot
    · exact TransGen.tail' hre hed
  obtain ⟨⟨hccell, -⟩, htest⟩ := mem_parentsOf.mp hc
  obtain ⟨hdata, hstart, hchildc⟩ := (testParent_iff hvalid hd).mp htest
  refine ⟨c, hccell, fun c' => ?_, (hdone r (mem_gridLoop.mpr hrcell) hr).2 d hstrict c hc⟩
  rw [testParent_iff hvalid hd, hchildc]
  exact ⟨fun h => h.2.2, fun h => ⟨hdata, hstart, h⟩⟩

theorem flintsLawArea_returns (dem : Databox K) : ∃ area, Returns (flintsLawArea dem) area := by
  obtain ⟨sx, hsx⟩ : ∃ sx, sx = computeSlopeXUpwind dem dem.dx (newDataboxLike dem) := ⟨_, rfl⟩
  have harea : (newDataboxLike dem).nx = sx.nx := hsx ▸ (setGrid_nx _ _ _).symm
  have hparent : (newDatabox sx.nx sx.ny sx.nz sx.x sx.y sx.z sx.dx sx.dy sx.dz).nx = sx.nx := rfl
  obtain ⟨parentmap', area', hret, -⟩ := upstreamLoop_returns dem (computeSlopeYUpwind dem dem.dy (newDataboxLike dem))
    (gridLoop sx.nx sx.ny) (fun c hc => mem_gridLoop.mp hc) (gridLoop_nodup _ _) hparent harea
  have hcount : Returns (computeUpstreamArea dem sx (computeSlopeYUpwind dem dem.dy (newDataboxLike dem))
      (newDataboxLike dem)) area' := (returns_bind_iff hret).mpr (returns_const _)
  rw [hsx] at hcount
  exact ⟨scaleArea dem area', (returns_bind_iff hcount).mpr (returns_const _)⟩

theorem computeFlintsLaw_reaches (sqrt : K → K) (pow : K → K → K) (dem : Databox K) (c p : K) (demflint : Databox K)
    (hvalid : ValidElevations dem) (hnx : demflint.nx = dem.nx) (hny : demflint.ny = dem.ny) :
    ∃ area demflint', Returns (flintsLawArea dem) area ∧ Returns (computeFlintsLaw sqrt pow dem c p demflint) demflint' ∧
      ∀ d, IsCell dem d →
        (¬ HasData dem d → coeffAt demflint' d.1 d.2 = nodata) ∧
        (HasData dem d → IsStart dem d → coeffAt demflint' d.1 d.2 = coeffAt dem d.1 d.2) ∧
        (HasData dem d → ¬ IsStart dem d → ∃ e, IsCell dem e ∧
          (∀ e' : ℤ × ℤ, computeTestParentD8 e'.1 e'.2 d.1 d.2 dem = 1 ↔ e' = e) ∧
          coeffAt demflint' d.1 d.2 = coeffAt demflint' e.1 e.2 + c * pow (coeffAt area d.1 d.2) p *
            coeffAt (computeSegmentD8 sqrt dem (newDataboxLike dem)) d.1 d.2) := by
  obtain ⟨area, harea⟩ := flintsLawArea_returns dem
  obtain ⟨demflint', hret, hcells⟩ := flintsLoop_returns
    (P := ⟨dem, area, computeSegmentD8 sqrt dem (newDataboxLike dem), pow, c, p⟩) (computeChildD8 dem (newDataboxLike dem))
    (s := setGrid dem.nx dem.ny (fun _ _ => notComputed) demflint) hvalid
    (fun d hd => coeffAt_setGrid _ rfl hd) ⟨(setGrid_nx _ _ _).trans hnx, (setGrid_ny _ _ _).trans hny⟩
    fun d hd => coeffAt_setGrid (fun _ _ => notComputed) hnx hd
  refine ⟨area, demflint', harea, (returns_bind_iff harea).mpr hret, fun d hd => ⟨fun hdata => ?_, fun hdata hstart => ?_,
    fun hdata hstart => (hcells d hd).2 fun hroot => hstart (hroot hdata)⟩⟩
  · exact ((hcells d hd).1 fun h => absurd h hdata).trans (not_not.mp hdata)
  · exact (hcells d hd).1 fun _ => hstart

end

/-! ## A coast -/

/-- Elevations 3, 1 and no data in the first row, and 2, 5 and 4 in the second one. -/
def coastGrid : Databox ℚ := ⟨3, 2, 1, 0, 0, 0, 1, 1, 1, fun n => [3, 1, nodata, 2, 5, 4].getD n.toNat 0⟩

theorem coastGrid_valid : ValidElevations coastGrid := by
  rintro ⟨i, j⟩ ⟨⟨hi, hi'⟩, hj, hj'⟩ hdata
  change i < 3 at hi'
  change j < 2 at hj'
  dsimp only at hi hj
  revert hdata
  interval_cases i <;> interval_cases j <;> decide +kernel

theorem coastGrid_reaches : ∃ area demflint', Returns (flintsLawArea coastGrid) area ∧
    Returns (computeFlintsLaw id (fun x _ => x) coastGrid 1 1 coastGrid) demflint' ∧
    ∀ d, IsCell coastGrid d →
      (¬ HasData coastGrid d → coeffAt demflint' d.1 d.2 = nodata) ∧
      (HasData coastGrid d → IsStart coastGrid d → coeffAt demflint' d.1 d.2 = coeffAt coastGrid d.1 d.2) ∧
      (HasData coastGrid d → ¬ IsStart coastGrid d → ∃ e, IsCell coastGrid e ∧
        (∀ e' : ℤ × ℤ, computeTestParentD8 e'.1 e'.2 d.1 d.2 coastGrid = 1 ↔ e' = e) ∧
        coeffAt demflint' d.1 d.2 = coeffAt demflint' e.1 e.2 + 1 * (fun x _ => x) (coeffAt area d.1 d.2) (1 : ℚ) *
          coeffAt (computeSegmentD8 id coastGrid (newDataboxLike coastGrid)) d.1 d.2) :=
  computeFlintsLaw_reaches id (fun x _ => x) coastGrid 1 1 coastGrid coastGrid_valid rfl rfl

end ParFlow.Topo
