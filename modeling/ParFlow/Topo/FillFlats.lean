import ParFlow.Lib.ExceptLoop
import ParFlow.Topo.SlopeDefs
import ParFlow.Topo.UpstreamArea

/-! What the interpolation across flat regions does to the elevations. A new elevation lies between old ones unless a
scan ends at a cell without data, whose mark is then averaged in as an elevation. -/

namespace ParFlow.Topo

open IntLoop FuelRun DepthFirst ExceptLoop Relation
open ParFlow.Pfb (Databox)

section Defs

variable {K : Type} [Field K] [LinearOrder K] (dem newdem : Databox K) (c d : ℤ × ℤ)

/-- Two cells with a common side. -/
def Borders : Prop := |c.1 - d.1| + |c.2 - d.2| = 1

instance : Decidable (Borders c d) := inferInstanceAs (Decidable (_ = _))

def OnEdge : Prop := c.1 = 0 ∨ c.1 = dem.nx - 1 ∨ c.2 = 0 ∨ c.2 = dem.ny - 1

instance : Decidable (OnEdge dem c) := inferInstanceAs (Decidable (_ ∨ _))

/-- The region of a cell goes on at its neighbours of the same elevation. -/
def Level : Prop := (IsCell dem d ∧ HasData dem d) ∧ Borders c d ∧ coeffAt dem c.1 c.2 = coeffAt dem d.1 d.2

instance : Decidable (Level dem c d) := inferInstanceAs (Decidable ((_ ∧ _) ∧ _ ∧ _))

def levels : List (ℤ × ℤ) :=
  ((upto (c.2 - 1) (c.2 + 1 + 1)).flatMap fun jj => (upto (c.1 - 1) (c.1 + 1 + 1)).map fun ii => (ii, jj)).filter fun d =>
    decide (Level dem c d)

/-- A cell as high as all its neighbours. -/
def IsFlat : Prop := HasData dem c ∧ ∀ d, IsCell dem d → Borders c d → coeffAt dem c.1 c.2 = coeffAt dem d.1 d.2

def terrain : Set K := {z | ∃ d, IsCell dem d ∧ HasData dem d ∧ coeffAt dem d.1 d.2 = z}

/-- Between the lowest and the highest elevation of the grid. -/
def WithinTerrain (z : K) : Prop := ∀ m M, IsLeast (terrain dem) m → IsGreatest (terrain dem) M → m ≤ z ∧ z ≤ M

end Defs

section

variable {K : Type} [Field K] [LinearOrder K] {dem newdem flatmap : Databox K} {c d : ℤ × ℤ}

/-! ## Regions -/

theorem borders_iff : Borders c d ↔ (d.1 = c.1 - 1 ∨ d.1 = c.1 + 1) ∧ d.2 = c.2 ∨ d.1 = c.1 ∧ (d.2 = c.2 - 1 ∨ d.2 = c.2 + 1) := by
  unfold Borders
  grind

theorem mem_levels : d ∈ levels dem c ↔ Level dem c d := by
  unfold levels
  rw [List.mem_filter, decide_eq_true_iff]
  refine ⟨fun h => h.2, fun h => ⟨?_, h⟩⟩
  have hborders := borders_iff.mp h.2.1
  rw [mem_rows, mem_upto, mem_upto]
  omega

theorem isSearch_levels (dem : Databox K) :
    IsSearch (levels dem) isMarked (fun c flatmap => setCoeff flatmap c.1 c.2 1) (IsMap dem dem) (dataCells dem dem) where
  next_mem := fun _ _ _ hd => mem_dataCells.mpr (mem_levels.mp hd).1
  inv_mark := fun _ hc _ hmap => isMap_mark hc hmap
  marked_mark := fun _ hc _ hd _ hmap => isMarked_mark hc hd hmap

/-- The tests of the loop over the neighbours are that for a cell of the same elevation. -/
theorem flatTests_eq {ii jj : ℤ} (hii : c.1 - 1 ≤ ii ∧ ii < c.1 + 1 + 1) (hjj : c.2 - 1 ≤ jj ∧ jj < c.2 + 1 + 1)
    {β : Type} (x y : β) :
    (if ii = c.1 ∧ jj = c.2 then x
      else if ii ≠ c.1 ∧ jj ≠ c.2 then x
      else if ii < 0 ∨ jj < 0 ∨ ii > dem.nx - 1 ∨ jj > dem.ny - 1 then x
      else if coeffAt dem ii jj = nodata then x
      else if coeffAt dem c.1 c.2 = coeffAt dem ii jj then if coeffAt flatmap ii jj ≠ 1 then y else x
      else x) =
    if Level dem c (ii, jj) then if isMarked flatmap (ii, jj) then x else y else x := by
  by_cases hlevel : Level dem c (ii, jj)
  · obtain ⟨⟨⟨⟨hx, hx'⟩, hy, hy'⟩, hdata⟩, hborders, hsame⟩ := id hlevel
    have hsides := borders_iff.mp hborders
    dsimp only at hx hx' hy hy' hdata hsame hsides
    rw [if_neg (by omega), if_neg (by omega), if_neg (by omega), if_neg hdata, if_pos hsame, if_pos hlevel]
    unfold isMarked
    by_cases hmarked : coeffAt flatmap ii jj = 1
    · rw [if_neg (not_not.mpr hmarked), if_pos (decide_eq_true hmarked)]
    · rw [if_pos hmarked, if_neg (by simpa using hmarked)]
  · rw [if_neg hlevel]
    split_ifs with hself hdiagonal hoff hnodata hsame hmarked
    · rfl
    · rfl
    · rfl
    · rfl
    · exact absurd ⟨⟨⟨⟨by omega, by omega⟩, by omega, by omega⟩, hnodata⟩, borders_iff.mpr (by omega), hsame⟩ hlevel
    · rfl
    · rfl

theorem computeFlatMap_eq_visit (fuel : ℕ) (hdata : HasData dem c) (flatmap : Databox K) :
    computeFlatMap dem fuel c.1 c.2 flatmap =
      visit (levels dem) isMarked (fun c flatmap => setCoeff flatmap c.1 c.2 1) fuel c flatmap := by
  induction fuel generalizing c flatmap with
  | zero => rfl
  | succ fuel ih =>
    unfold computeFlatMap visit
    rw [if_neg hdata, levels, List.foldlM_filter, foldlM_flatMap]
    simp only [List.foldlM_map]
    refine foldlM_congr (fun jj hjj flatmap => foldlM_congr (fun ii hii flatmap => ?_) flatmap) _
    rw [flatTests_eq (mem_upto.mp hii) (mem_upto.mp hjj)]
    by_cases hlevel : Level dem c (ii, jj)
    · rw [if_pos hlevel, if_pos (decide_eq_true hlevel), ← visit_mark (setCoeff_setCoeff ii jj 1)]
      exact if_congr Iff.rfl rfl (ih (c := (ii, jj)) hlevel.1.2 _)
    · rw [if_neg hlevel, if_neg (by simpa using hlevel)]
      rfl

/-- From a map of zeros, the flat map of a cell with data holds ones in its region. -/
theorem computeFlatMap_returns (hnx : flatmap.nx = dem.nx) (hzero : ∀ d, IsCell dem d → coeffAt flatmap d.1 d.2 = 0)
    (hc : IsCell dem c) (hdata : HasData dem c) :
    ∃ flatmap', Returns (fun fuel => computeFlatMap dem fuel c.1 c.2 flatmap) flatmap' ∧ flatmap'.nx = dem.nx ∧
      ∀ d, IsCell dem d → (coeffAt flatmap' d.1 d.2 = 1 ↔ HasData dem d ∧ ReflTransGen (Level dem) c d) := by
  obtain ⟨flatmap', hret, hmap', hmarked⟩ := search_returns (isSearch_levels dem) hnx hzero hc hdata
  have hfollows : Follows (levels dem) = Level dem := by
    funext d d'
    exact propext mem_levels
  rw [hfollows] at hmarked
  exact ⟨flatmap', by simpa only [computeFlatMap_eq_visit _ hdata] using hret, hmap'.nx_eq, hmarked⟩

/-! ## Scans -/

section Scans

variable (flat : ℤ → Bool) (last : ℤ)

/-- A scan that starts at a flat place ends next to one. -/
theorem scanLow_spec (n : ℕ) (hn : 0 < n) (hflat : flat n = true) :
    0 ≤ scanLow flat n ∧ scanLow flat n < n ∧ flat (scanLow flat n + 1) = true := by
  induction n with
  | zero => exact absurd hn (by omega)
  | succ n ih =>
    rw [Nat.cast_succ] at hflat ⊢
    rw [scanLow, if_pos hflat]
    by_cases hnext : 0 < n ∧ flat n = true
    · obtain ⟨hlow, hlt, hend⟩ := ih hnext.1 hnext.2
      exact ⟨hlow, by omega, hend⟩
    · have hstop : scanLow flat n = n := by
        cases n with
        | zero => rfl
        | succ n => exact if_neg fun h => hnext ⟨by omega, by exact_mod_cast h⟩
      rw [hstop]
      exact ⟨by omega, by omega, hflat⟩

theorem scanHigh_spec (n : ℕ) (hn : 0 < n) (hflat : flat (last - n) = true) :
    last - n < scanHigh flat last n ∧ scanHigh flat last n ≤ last ∧ flat (scanHigh flat last n - 1) = true := by
  induction n with
  | zero => exact absurd hn (by omega)
  | succ n ih =>
    rw [Nat.cast_succ] at hflat ⊢
    rw [scanHigh, if_pos hflat]
    by_cases hnext : 0 < n ∧ flat (last - n) = true
    · obtain ⟨hlt, hhigh, hend⟩ := ih hnext.1 hnext.2
      exact ⟨by omega, hhigh, hend⟩
    · have hstop : scanHigh flat last n = last - n := by
        cases n with
        | zero => simp [scanHigh]
        | succ n =>
          rw [Nat.cast_succ] at hnext ⊢
          exact if_neg fun h => hnext ⟨by omega, h⟩
      rw [hstop]
      exact ⟨by omega, by omega, by rwa [show last - (n : ℤ) - 1 = last - (n + 1) by ring]⟩

end Scans

/-- The end of a scan from `d`: a cell of the grid, next to a marked interior cell. -/
structure EndsAt (dem flatmap : Databox K) (d e : ℤ × ℤ) : Prop where
  cell : IsCell dem e
  ne : e ≠ d
  border : ∃ d', IsCell dem d' ∧ ¬ OnEdge dem d' ∧ coeffAt flatmap d'.1 d'.2 = 1 ∧ Borders d' e

omit [LinearOrder K] in
theorem endsAt_row (hd : IsCell dem d) (hedge : ¬ OnEdge dem d) {i near : ℤ}
    (h : near = i + 1 ∧ 0 ≤ i ∧ i < d.1 ∨ near = i - 1 ∧ d.1 < i ∧ i ≤ dem.nx - 1) (hmark : coeffAt flatmap near d.2 = 1) :
    EndsAt dem flatmap d (i, d.2) := by
  obtain ⟨⟨hi, hi'⟩, hj, hj'⟩ := hd
  unfold OnEdge at hedge
  refine ⟨⟨by constructor <;> dsimp only <;> omega, hj, hj'⟩, fun heq => ?_, (near, d.2), ⟨by constructor <;> dsimp only <;> omega, hj, hj'⟩,
    ?_, hmark, ?_⟩
  · have hsame : i = d.1 := congrArg (·.1) heq
    omega
  · unfold OnEdge
    dsimp only
    omega
  · rw [borders_iff]
    dsimp only
    omega

omit [LinearOrder K] in
theorem endsAt_column (hd : IsCell dem d) (hedge : ¬ OnEdge dem d) {j near : ℤ}
    (h : near = j + 1 ∧ 0 ≤ j ∧ j < d.2 ∨ near = j - 1 ∧ d.2 < j ∧ j ≤ dem.ny - 1) (hmark : coeffAt flatmap d.1 near = 1) :
    EndsAt dem flatmap d (d.1, j) := by
  obtain ⟨⟨hi, hi'⟩, hj, hj'⟩ := hd
  unfold OnEdge at hedge
  refine ⟨⟨⟨hi, hi'⟩, by constructor <;> dsimp only <;> omega⟩, fun heq => ?_, (d.1, near), ⟨⟨hi, hi'⟩, by constructor <;> dsimp only <;> omega⟩,
    ?_, hmark, ?_⟩
  · have hsame : j = d.2 := congrArg (·.2) heq
    omega
  · unfold OnEdge
    dsimp only
    omega
  · rw [borders_iff]
    dsimp only
    omega

theorem scanLow_ends (flat : ℤ → Bool) {i : ℤ} (hi : 0 < i) (hflat : flat i = true) :
    0 ≤ scanLow flat i.toNat ∧ scanLow flat i.toNat < i ∧ flat (scanLow flat i.toNat + 1) = true := by
  have hnat : ((i.toNat : ℕ) : ℤ) = i := Int.toNat_of_nonneg hi.le
  have h := scanLow_spec flat i.toNat (by omega) (by rwa [hnat])
  rwa [hnat] at h

theorem scanHigh_ends (flat : ℤ → Bool) {i last : ℤ} (hi : i < last) (hflat : flat i = true) :
    i < scanHigh flat last (last - i).toNat ∧ scanHigh flat last (last - i).toNat ≤ last ∧
      flat (scanHigh flat last (last - i).toNat - 1) = true := by
  have hnat : (((last - i).toNat : ℕ) : ℤ) = last - i := Int.toNat_of_nonneg (by omega)
  have h := scanHigh_spec flat last (last - i).toNat (by omega) (by rwa [hnat, sub_sub_cancel])
  rwa [hnat, sub_sub_cancel] at h

theorem scans_end (hd : IsCell dem d) (hedge : ¬ OnEdge dem d) (hmark : coeffAt flatmap d.1 d.2 = 1) :
    (EndsAt dem flatmap d (scanLeft flatmap d.1 d.2, d.2) ∧ EndsAt dem flatmap d (scanRight dem flatmap d.1 d.2, d.2)) ∧
      EndsAt dem flatmap d (d.1, scanUp dem flatmap d.1 d.2) ∧ EndsAt dem flatmap d (d.1, scanDown flatmap d.1 d.2) := by
  have hpos : (0 < d.1 ∧ d.1 < dem.nx - 1) ∧ 0 < d.2 ∧ d.2 < dem.ny - 1 := by
    obtain ⟨⟨hi, hi'⟩, hj, hj'⟩ := hd
    unfold OnEdge at hedge
    omega
  have hflat : decide (coeffAt flatmap d.1 d.2 = 1) = true := decide_eq_true hmark
  obtain ⟨hleft, hleft', hleftEnd⟩ := scanLow_ends (fun i => decide (coeffAt flatmap i d.2 = 1)) hpos.1.1 hflat
  obtain ⟨hright, hright', hrightEnd⟩ := scanHigh_ends (fun i => decide (coeffAt flatmap i d.2 = 1)) hpos.1.2 hflat
  obtain ⟨hup, hup', hupEnd⟩ := scanHigh_ends (fun j => decide (coeffAt flatmap d.1 j = 1)) hpos.2.2 hflat
  obtain ⟨hdown, hdown', hdownEnd⟩ := scanLow_ends (fun j => decide (coeffAt flatmap d.1 j = 1)) hpos.2.1 hflat
  exact ⟨⟨endsAt_row hd hedge (Or.inl ⟨rfl, hleft, hleft'⟩) (of_decide_eq_true hleftEnd),
      endsAt_row hd hedge (Or.inr ⟨rfl, hright, hright'⟩) (of_decide_eq_true hrightEnd)⟩,
    endsAt_column hd hedge (Or.inr ⟨rfl, hup, hup'⟩) (of_decide_eq_true hupEnd),
    endsAt_column hd hedge (Or.inl ⟨rfl, hdown, hdown'⟩) (of_decide_eq_true hdownEnd)⟩

/-! ## Flat cells -/

theorem foldl_clear {α : Type} (p : α → Prop) [DecidablePred p] (l : List α) (flat : ℤ) :
    l.foldl (fun flat x => if p x then 0 else flat) flat = if ∃ x ∈ l, p x then 0 else flat := by
  induction l generalizing flat with
  | nil => simp
  | cons x l ih =>
    rw [List.foldl_cons, ih]
    by_cases hx : p x
    · simp [hx]
    · simp [hx]

omit [Field K] in
theorem flatTest_eq (hnx : newdem.nx = dem.nx) (hny : newdem.ny = dem.ny) (ii jj flat : ℤ) :
    (if |c.1 - ii| + |c.2 - jj| = 1 then
        if ii < 0 ∨ jj < 0 ∨ ii ≥ dem.nx ∨ jj ≥ dem.ny then flat
        else if coeffAt newdem c.1 c.2 ≠ coeffAt newdem ii jj then 0
        else flat
      else flat) =
    if Borders c (ii, jj) ∧ IsCell newdem (ii, jj) ∧ coeffAt newdem c.1 c.2 ≠ coeffAt newdem ii jj then 0 else flat := by
  by_cases hall : Borders c (ii, jj) ∧ IsCell newdem (ii, jj) ∧ coeffAt newdem c.1 c.2 ≠ coeffAt newdem ii jj
  · obtain ⟨hborders, ⟨⟨hx, hx'⟩, hy, hy'⟩, hdiffers⟩ := id hall
    dsimp only at hx hx' hy hy'
    rw [if_pos hall, if_pos (show |c.1 - ii| + |c.2 - jj| = 1 from hborders), if_neg (by omega), if_pos hdiffers]
  · rw [if_neg hall]
    split_ifs with hborders hoff hdiffers
    · rfl
    · exact absurd ⟨hborders, ⟨⟨by omega, by omega⟩, by omega, by omega⟩, hdiffers⟩ hall
    · rfl
    · rfl

omit [Field K] in
theorem testFlat_iff (hnx : newdem.nx = dem.nx) (hny : newdem.ny = dem.ny) : testFlat dem newdem c.1 c.2 = 1 ↔
    ∀ d, IsCell newdem d → Borders c d → coeffAt newdem c.1 c.2 = coeffAt newdem d.1 d.2 := by
  have hloop : testFlat dem newdem c.1 c.2 =
      ((upto (c.2 - 1) (c.2 + 1 + 1)).flatMap fun jj => (upto (c.1 - 1) (c.1 + 1 + 1)).map fun ii => (ii, jj)).foldl
        (fun flat d => if Borders c d ∧ IsCell newdem d ∧ coeffAt newdem c.1 c.2 ≠ coeffAt newdem d.1 d.2 then 0 else flat) 1 := by
    rw [List.foldl_flatMap]
    simp only [List.foldl_map, ← flatTest_eq hnx hny]
    rfl
  rw [hloop, foldl_clear]
  constructor
  · intro h d hd hborders
    by_contra hdiffers
    have hsides := borders_iff.mp hborders
    have hmem : d ∈ (upto (c.2 - 1) (c.2 + 1 + 1)).flatMap fun jj => (upto (c.1 - 1) (c.1 + 1 + 1)).map fun ii => (ii, jj) :=
      mem_rows.mpr ⟨mem_upto.mpr (by omega), mem_upto.mpr (by omega)⟩
    rw [if_pos ⟨d, hmem, hborders, hd, hdiffers⟩] at h
    exact absurd h zero_ne_one
  · intro h
    refine if_neg ?_
    rintro ⟨d, -, hborders, hd, hdiffers⟩
    exact hdiffers (h d hd hborders)

end

section

variable {K : Type} [Field K] [LinearOrder K] [IsStrictOrderedRing K] {dem newdem flatmap : Databox K} {s : FillState K}
  {c d : ℤ × ℤ} {m M : K}

/-! ## Averages -/

theorem scanDistance_pos {i iscan : ℤ} (h : iscan ≠ i) : 0 < (scanDistance i iscan : K) := by
  unfold scanDistance
  rw [abs_pos, sub_ne_zero]
  exact fun heq => h (Int.cast_injective heq).symm

/-- The average of the ends lies between them. -/
theorem inverseDistance_mem {zleft dleft zright dright zup dup zdown ddown : K} (hdleft : 0 < dleft) (hdright : 0 < dright)
    (hdup : 0 < dup) (hddown : 0 < ddown) (hleft : m ≤ zleft ∧ zleft ≤ M) (hright : m ≤ zright ∧ zright ≤ M)
    (hup : m ≤ zup ∧ zup ≤ M) (hdown : m ≤ zdown ∧ zdown ≤ M) :
    m ≤ inverseDistance zleft dleft zright dright zup dup zdown ddown ∧
      inverseDistance zleft dleft zright dright zup dup zdown ddown ≤ M := by
  have hweights : 0 < 1 / dleft + 1 / dright + 1 / dup + 1 / ddown := by positivity
  have hsum : ∀ z : K, z * (1 / dleft + 1 / dright + 1 / dup + 1 / ddown) = z / dleft + z / dright + z / dup + z / ddown :=
    fun z => by ring
  have hlow : ∀ {z d : K}, 0 < d → m ≤ z ∧ z ≤ M → m / d ≤ z / d := fun hd hz => div_le_div_of_nonneg_right hz.1 hd.le
  have hhigh : ∀ {z d : K}, 0 < d → m ≤ z ∧ z ≤ M → z / d ≤ M / d := fun hd hz => div_le_div_of_nonneg_right hz.2 hd.le
  unfold inverseDistance
  rw [le_div_iff₀ hweights, div_le_iff₀ hweights, hsum, hsum]
  exact ⟨add_le_add (add_le_add (add_le_add (hlow hdleft hleft) (hlow hdright hright)) (hlow hdup hup)) (hlow hddown hdown),
    add_le_add (add_le_add (add_le_add (hhigh hdleft hleft) (hhigh hdright hright)) (hhigh hdup hup)) (hhigh hddown hdown)⟩

theorem half_mem {a b : K} (ha : m ≤ a ∧ a ≤ M) (hb : m ≤ b ∧ b ≤ M) : m ≤ (a + b) / 2.0 ∧ (a + b) / 2.0 ≤ M := by
  have htwo : (2.0 : K) = 1 + 1 := by norm_num
  have hpos : (0 : K) < 1 + 1 := add_pos one_pos one_pos
  rw [htwo, le_div_iff₀ hpos, div_le_iff₀ hpos, mul_add, mul_one, mul_add, mul_one]
  exact ⟨add_le_add ha.1 hb.1, add_le_add ha.2 hb.2⟩

/-! ## The interpolation of a region -/

/-- What holds of the state in any case. -/
structure Fills (dem : Databox K) (s : FillState K) : Prop where
  nx_eq : s.newdem.nx = dem.nx
  ny_eq : s.newdem.ny = dem.ny
  flatmap_nx : s.flatmap.nx = dem.nx
  distances : ∀ x ∈ s.distances, x ≠ 0
  kept : ∀ c, IsCell dem c → ¬ HasData dem c ∨ OnEdge dem c → coeffAt s.newdem c.1 c.2 = coeffAt dem c.1 c.2

def StaysWithin (dem : Databox K) (s : FillState K) : Prop :=
  ∀ c, IsCell dem c → HasData dem c → WithinTerrain dem (coeffAt s.newdem c.1 c.2)

/-- Only cells with data are marked. -/
def MarksData (dem flatmap : Databox K) : Prop := ∀ d, IsCell dem d → coeffAt flatmap d.1 d.2 = 1 → HasData dem d

/-- The marked interior cells border on cells with data only. -/
def BordersData (dem flatmap : Databox K) : Prop :=
  ∀ d e, IsCell dem d → ¬ OnEdge dem d → coeffAt flatmap d.1 d.2 = 1 → Borders d e → HasData dem e

/-- A round of the interpolation leaves the state, or sets a marked interior cell and adds four distances. -/
theorem interpolateCell_cases (hd : IsCell dem d) : interpolateCell dem s d = s ∨
    (¬ OnEdge dem d ∧ coeffAt s.flatmap d.1 d.2 = 1) ∧ ∃ average distances,
      interpolateCell dem s d = { s with
        newdem := setCoeff s.newdem d.1 d.2 ((coeffAt s.newdem d.1 d.2 + average) / 2.0)
        distances := s.distances ++ distances } ∧
      (∀ x ∈ distances, x ≠ 0) ∧
      ∀ m M, (∀ e, EndsAt dem s.flatmap d e → m ≤ coeffAt s.newdem e.1 e.2 ∧ coeffAt s.newdem e.1 e.2 ≤ M) →
        m ≤ average ∧ average ≤ M := by
  unfold interpolateCell
  by_cases hedge : OnEdge dem d
  · exact Or.inl (if_pos hedge)
  · by_cases hmark : coeffAt s.flatmap d.1 d.2 = 1
    · obtain ⟨⟨hleft, hright⟩, hup, hdown⟩ := scans_end hd hedge hmark
      have hdleft : 0 < (scanDistance d.1 (scanLeft s.flatmap d.1 d.2) : K) :=
        scanDistance_pos fun h => hleft.ne (Prod.ext h rfl)
      have hdright : 0 < (scanDistance d.1 (scanRight dem s.flatmap d.1 d.2) : K) :=
        scanDistance_pos fun h => hright.ne (Prod.ext h rfl)
      have hdup : 0 < (scanDistance d.2 (scanUp dem s.flatmap d.1 d.2) : K) :=
        scanDistance_pos fun h => hup.ne (Prod.ext rfl h)
      have hddown : 0 < (scanDistance d.2 (scanDown s.flatmap d.1 d.2) : K) :=
        scanDistance_pos fun h => hdown.ne (Prod.ext rfl h)
      refine Or.inr ⟨⟨hedge, hmark⟩, _, _, (if_neg hedge).trans (if_pos hmark), ?_, fun m M hends => ?_⟩
      · intro x hx
        simp only [List.mem_cons, List.not_mem_nil, or_false] at hx
        rcases hx with rfl | rfl | rfl | rfl
        · exact hdleft.ne'
        · exact hdright.ne'
        · exact hdup.ne'
        · exact hddown.ne'
      · exact inverseDistance_mem hdleft hdright hdup hddown (hends _ hleft) (hends _ hright) (hends _ hup) (hends _ hdown)
    · exact Or.inl ((if_neg hedge).trans (if_neg hmark))

theorem interpolateCell_flatmap (hd : IsCell dem d) : (interpolateCell dem s d).flatmap = s.flatmap := by
  rcases interpolateCell_cases (s := s) hd with heq | ⟨-, average, distances, heq, -⟩
  · rw [heq]
  · rw [heq]

theorem Fills.interpolateCell (h : Fills dem s) (hmarks : MarksData dem s.flatmap) (hd : IsCell dem d) :
    Fills dem (interpolateCell dem s d) := by
  rcases interpolateCell_cases (s := s) hd with heq | ⟨⟨hedge, hmark⟩, average, distances, heq, hdistances, -⟩
  · rwa [heq]
  · rw [heq]
    refine ⟨h.nx_eq, h.ny_eq, h.flatmap_nx, fun x hx => ?_, fun c hc hkept => ?_⟩
    · exact (List.mem_append.mp hx).elim (h.distances x) (hdistances x)
    · have hne : c ≠ d := by
        rintro rfl
        exact hkept.elim (fun hnot => hnot (hmarks c hd hmark)) hedge
      exact (coeffAt_setCoeff_of_ne h.nx_eq hd hc hne).trans (h.kept c hc hkept)

/-- An end without data does no harm where its mark lies between the elevations. -/
theorem StaysWithin.interpolateCell (h : StaysWithin dem s) (hfills : Fills dem s)
    (hborders : WithinTerrain dem nodata ∨ BordersData dem s.flatmap) (hd : IsCell dem d) :
    StaysWithin dem (interpolateCell dem s d) := by
  rcases interpolateCell_cases (s := s) hd with heq | ⟨⟨hedge, hmark⟩, average, distances, heq, -, haverage⟩
  · rwa [heq]
  · rw [heq]
    intro c hc hdata m M hm hM
    by_cases hne : c = d
    · subst hne
      rw [coeffAt_setCoeff]
      refine half_mem (h c hc hdata m M hm hM) (haverage m M fun e he => ?_)
      -- an end with data may have been set in an earlier round, but is within bounds all the same
      by_cases he' : HasData dem e
      · exact h e he.cell he' m M hm hM
      · obtain ⟨d', hd', hedge', hmark', hborder⟩ := he.border
        rw [hfills.kept e he.cell (Or.inl he'), not_not.mp he']
        exact hborders.resolve_right (fun hdata => he' (hdata d' e hd' hedge' hmark' hborder)) m M hm hM
    · rw [coeffAt_setCoeff_of_ne hfills.nx_eq hd hc hne]
      exact h c hc hdata m M hm hM

theorem interpolate_fills {l : List (ℤ × ℤ)} (hl : ∀ d ∈ l, IsCell dem d) (h : Fills dem s) (hmarks : MarksData dem s.flatmap) :
    Fills dem (l.foldl (interpolateCell dem) s) ∧ (WithinTerrain dem nodata ∨ BordersData dem s.flatmap →
      StaysWithin dem s → StaysWithin dem (l.foldl (interpolateCell dem) s)) := by
  induction l generalizing s with
  | nil => exact ⟨h, fun _ hwithin => hwithin⟩
  | cons d l ih =>
    have hd := hl d List.mem_cons_self
    have hflatmap := interpolateCell_flatmap (s := s) hd
    obtain ⟨hfills, hstays⟩ := ih (fun e he => hl e (List.mem_cons_of_mem _ he)) (h.interpolateCell hmarks hd) (by rwa [hflatmap])
    rw [hflatmap] at hstays
    exact ⟨hfills, fun hborders hwithin => hstays hborders (hwithin.interpolateCell h hborders hd)⟩

/-! ## The loop over the grid -/

/-- The interior cells of the region around `c` border on cells with data only. -/
def RegionMeetsData (dem newdem : Databox K) (c : ℤ × ℤ) : Prop :=
  ∀ d e, ReflTransGen (Level newdem) c d → ¬ OnEdge dem d → Borders d e → HasData dem e

theorem fillFlatCell_returns (h : Fills dem s) (hc : IsCell dem c) :
    ∃ s', Returns (fun fuel => fillFlatCell dem fuel s c) s' ∧ Fills dem s' ∧
      (WithinTerrain dem nodata ∨ (IsFlat s.newdem c → RegionMeetsData dem s.newdem c) →
        StaysWithin dem s → StaysWithin dem s') := by
  unfold fillFlatCell
  by_cases hdata : coeffAt s.newdem c.1 c.2 = nodata
  · simp only [if_pos hdata]
    exact ⟨s, returns_const s, h, fun _ hwithin => hwithin⟩
  · simp only [if_neg hdata]
    by_cases hflat : testFlat dem s.newdem c.1 c.2 = 1
    · have hcell : ∀ d, IsCell s.newdem d ↔ IsCell dem d := fun d => by
        unfold IsCell
        rw [h.nx_eq, h.ny_eq]
      have hzero : ∀ d, IsCell s.newdem d → coeffAt (setGrid dem.nx dem.ny (fun _ _ => (0 : K)) s.flatmap) d.1 d.2 = 0 :=
        fun d hd => coeffAt_setGrid (fun _ _ => (0 : K)) h.flatmap_nx ((hcell d).mp hd)
      obtain ⟨flatmap, hret, hflatmap, hmarked⟩ := computeFlatMap_returns
        ((setGrid_nx dem.nx dem.ny fun _ _ => (0 : K)).trans (h.flatmap_nx.trans h.nx_eq.symm)) hzero ((hcell c).mpr hc) hdata
      -- a cell without data still holds its mark, and is not part of any region
      have hmarks : MarksData dem flatmap := fun d hd hmark => by
        have hdata' := ((hmarked d ((hcell d).mpr hd)).mp hmark).1
        by_contra hnot
        exact hdata' ((h.kept d hd (Or.inl hnot)).trans (not_not.mp hnot))
      obtain ⟨hfills, hstays⟩ := interpolate_fills (s := { s with flatmap := flatmap }) (fun d hd => mem_gridLoop.mp hd)
        ⟨h.nx_eq, h.ny_eq, hflatmap.trans h.nx_eq, h.distances, h.kept⟩ hmarks
      simp only [if_pos hflat]
      refine ⟨_, (returns_bind_iff hret).mpr (returns_const _), hfills, fun hregion hwithin => hstays ?_ hwithin⟩
      refine hregion.imp id fun hregion d e hd hedge hmark hborders => ?_
      exact hregion ⟨hdata, (testFlat_iff h.nx_eq h.ny_eq).mp hflat⟩ d e ((hmarked d ((hcell d).mpr hd)).mp hmark).2 hedge hborders
    · simp only [if_neg hflat]
      exact ⟨s, returns_const s, h, fun _ hwithin => hwithin⟩

/-- Whenever a cell is flat, the interior cells of its region border on cells with data only. -/
def ScansMeetData (dem newdem : Databox K) : Prop :=
  ∀ pre c post s, gridLoop dem.nx dem.ny = pre ++ c :: post → Returns (fillFlatsLoop dem newdem pre) s →
    IsFlat s.newdem c → RegionMeetsData dem s.newdem c

/-- No distance that the routine divides by is zero, cells without data and cells of the edge keep their values, and the
other cells get elevations from between the lowest and the highest one. -/
def FillsWithin (dem newdem : Databox K) : Prop :=
  ∃ s, Returns (computeFillFlats dem newdem) s ∧ (∀ x ∈ s.distances, x ≠ 0) ∧
    (∀ c, IsCell dem c → ¬ HasData dem c ∨ OnEdge dem c → coeffAt s.newdem c.1 c.2 = coeffAt dem c.1 c.2) ∧
    ∀ c, IsCell dem c → HasData dem c → ¬ OnEdge dem c → WithinTerrain dem (coeffAt s.newdem c.1 c.2)

section

variable (hnx : newdem.nx = dem.nx) (hny : newdem.ny = dem.ny)

include hnx hny

omit [LinearOrder K] [IsStrictOrderedRing K] in
theorem start_fills : Fills dem ⟨setGrid dem.nx dem.ny (coeffAt dem) newdem, newDataboxLike dem, []⟩ :=
  ⟨(setGrid_nx ..).trans hnx, (setGrid_ny ..).trans hny, rfl, fun _ hx => absurd hx List.not_mem_nil,
    fun _ hc _ => coeffAt_setGrid (coeffAt dem) hnx hc⟩

/-- In any case the routine divides by no zero and keeps the cells without data and those of the edge. -/
theorem computeFillFlats_keeps : ∃ s, Returns (computeFillFlats dem newdem) s ∧ Fills dem s :=
  returns_foldlM_inv (Fills dem) (start_fills hnx hny) fun pre c post s hl _ hfills => by
    have hc : IsCell dem c := mem_gridLoop.mp (hl ▸ List.mem_append_right _ List.mem_cons_self)
    obtain ⟨s', hs', hfills', -⟩ := fillFlatCell_returns hfills hc
    exact ⟨s', hs', hfills'⟩

/-- The new elevations are within the old ones when no scan ends at a cell without data, and also when the mark of such a
cell is. -/
theorem fillsWithin_of_scansMeetData (hmeet : WithinTerrain dem nodata ∨ ScansMeetData dem newdem) : FillsWithin dem newdem := by
  have hstart : StaysWithin dem ⟨setGrid dem.nx dem.ny (coeffAt dem) newdem, newDataboxLike dem, []⟩ := by
    intro c hc hdata m M hm hM
    have hmem : coeffAt dem c.1 c.2 ∈ terrain dem := ⟨c, hc, hdata, rfl⟩
    rw [coeffAt_setGrid (coeffAt dem) hnx hc]
    exact ⟨hm.2 hmem, hM.2 hmem⟩
  obtain ⟨s, hs, hfills, hwithin⟩ := returns_foldlM_inv (l := gridLoop dem.nx dem.ny) (g := fillFlatCell dem) (fun s => Fills dem s ∧ StaysWithin dem s)
    ⟨start_fills hnx hny, hstart⟩ fun pre c post s hl hpre ⟨hfills, hwithin⟩ => by
      have hc : IsCell dem c := mem_gridLoop.mp (hl ▸ List.mem_append_right _ List.mem_cons_self)
      obtain ⟨s', hs', hfills', hstays⟩ := fillFlatCell_returns hfills hc
      exact ⟨s', hs', hfills', hstays (hmeet.imp id fun hmeet => hmeet pre c post s hl hpre) hwithin⟩
  exact ⟨s, hs, hfills.distances, hfills.kept, fun c hc hdata _ => hwithin c hc hdata⟩

end

end

/-! ## A terrace -/

/-- A plain of three by three cells, but for the cell in the middle of the right side. -/
def terrace (z : ℚ) : Databox ℚ := ⟨3, 3, 1, 0, 0, 0, 1, 1, 1, fun n => if n = 5 then z else 0⟩

theorem terrace_step_fills : FillsWithin (terrace 8) (newDataboxLike (terrace 8)) :=
  fillsWithin_of_scansMeetData rfl rfl <| Or.inr fun pre c post s hl hs hflat d e hreach hedge hborders => by
    show (if _ = (5 : ℤ) then (8 : ℚ) else 0) ≠ -9999
    split_ifs <;> norm_num

theorem stable_computeFillFlats {K : Type} [Field K] [LinearOrder K] (dem newdem : Databox K) :
    Stable (computeFillFlats dem newdem) := by
  refine stable_foldlM (fun s c => ?_) _ _
  unfold fillFlatCell
  by_cases hdata : coeffAt s.newdem c.1 c.2 = nodata
  · simp only [if_pos hdata]
    exact stable_const _
  · simp only [if_neg hdata]
    split_ifs
    · simp only [computeFlatMap_eq_visit _ hdata]
      exact (stable_visit _ _).bind fun _ => stable_const _
    · exact stable_const _

theorem exists_of_any {ε β : Type} {x : Except ε β} {p : β → Bool} (h : x.toOption.any p = true) :
    ∃ r, x = .ok r ∧ p r = true := by
  cases x with
  | error e => exact absurd h (by simp [Except.toOption])
  | ok r => exact ⟨r, rfl, h⟩

/-- Where that cell has no data, the mark for it is averaged into the middle of the plain. -/
theorem terrace_nodata_not_fills : ¬ FillsWithin (terrace nodata) (newDataboxLike (terrace nodata)) := by
  rintro ⟨s, hs, -, -, hwithin⟩
  have hrun : ((computeFillFlats (terrace nodata) (newDataboxLike (terrace nodata)) 9).toOption.any fun s =>
      decide (coeffAt s.newdem 1 1 < 0)) = true := by decide +kernel
  obtain ⟨s', hs', hneg⟩ := exists_of_any hrun
  rw [hs.unique ((stable_computeFillFlats _ _).returns hs')] at hwithin
  have hzero : ∀ z ∈ terrain (terrace nodata), z = 0 := by
    rintro z ⟨d, -, hdata, rfl⟩
    exact if_neg fun h => hdata (if_pos h)
  have hmem : (0 : ℚ) ∈ terrain (terrace nodata) := ⟨(0, 0), by decide, by decide +kernel, by decide +kernel⟩
  have hbound := hwithin (1, 1) (by decide) (by decide +kernel) (by decide) 0 0 ⟨hmem, fun z hz => (hzero z hz).ge⟩
    ⟨hmem, fun z hz => (hzero z hz).le⟩
  exact absurd (of_decide_eq_true hneg) (not_lt.mpr hbound.1)

end ParFlow.Topo
