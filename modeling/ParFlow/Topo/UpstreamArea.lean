import ParFlow.Lib.ExceptLoop
import ParFlow.Topo.GridCells

/-! The recursion over the parents of a cell is a depth-first search, so that the parent map holds the cells that
drain into the cell, and the area is their number. -/

namespace ParFlow.Topo

open IntLoop FuelRun DepthFirst ExceptLoop Relation
open ParFlow.Pfb (Databox)

/-! ## Parents -/

section Defs

variable {K : Type} [Field K] [LinearOrder K] (dem sx sy : Databox K)

/-- The cell `d` is a parent of `c` by `ComputeTestParent`. -/
def IsParent (c d : ℤ × ℤ) : Prop := IsCell sx d ∧ computeTestParent c.1 c.2 d.1 d.2 dem sx sy = 1

/-- The cells with data that are reached from `c` by going to parents, `c` itself among them. -/
def upstream (c : ℤ × ℤ) : Set (ℤ × ℤ) := {d | IsCell sx d ∧ HasData dem d ∧ ReflTransGen (IsParent dem sx sy) c d}

instance (c : ℤ × ℤ) : DecidablePred (IsParent dem sx sy c) := fun d =>
  inferInstanceAs (Decidable (IsCell sx d ∧ computeTestParent c.1 c.2 d.1 d.2 dem sx sy = 1))

def dataCells : Finset (ℤ × ℤ) := ((gridLoop sx.nx sx.ny).filter fun c => decide (HasData dem c)).toFinset

/-- The cells around `c` that pass the tests of `ComputeParentMap`. -/
def parents (c : ℤ × ℤ) : List (ℤ × ℤ) :=
  ((upto (c.2 - 1) (c.2 + 1 + 1)).flatMap fun jj => (upto (c.1 - 1) (c.1 + 1 + 1)).map fun ii => (ii, jj)).filter fun d =>
    decide (IsParent dem sx sy c d)

def isMarked (parentmap : Databox K) (d : ℤ × ℤ) : Bool := decide (coeffAt parentmap d.1 d.2 = 1)

/-- A map of zeros and ones on the grid of the slopes, with ones at cells with data only. -/
structure IsMap (parentmap : Databox K) : Prop where
  nx_eq : parentmap.nx = sx.nx
  zero_or : ∀ c, IsCell sx c → coeffAt parentmap c.1 c.2 = 0 ∨ HasData dem c ∧ coeffAt parentmap c.1 c.2 = 1

end Defs

section

variable {K : Type} [Field K] [LinearOrder K] {dem sx sy area parentmap : Databox K} {c d : ℤ × ℤ}

/-! ## The search -/

/-- A parent has data and is one of the four neighbours. -/
theorem computeTestParent_eq_one {i j ii jj : ℤ} (h : computeTestParent i j ii jj dem sx sy = 1) :
    coeffAt dem ii jj ≠ nodata ∧
      ((ii = i - 1 ∨ ii = i + 1) ∧ jj = j ∨ ii = i ∧ (jj = j - 1 ∨ jj = j + 1)) := by
  unfold computeTestParent at h
  split_ifs at h with hadjacent hnodata hwest heast hsouth hnorth
  · exact absurd h (by decide)
  · exact ⟨hnodata, Or.inl ⟨Or.inl hwest.1, hwest.2.1⟩⟩
  · exact ⟨hnodata, Or.inl ⟨Or.inr heast.1, heast.2.1⟩⟩
  · exact ⟨hnodata, Or.inr ⟨hsouth.1, Or.inl hsouth.2.1⟩⟩
  · exact ⟨hnodata, Or.inr ⟨hnorth.1, Or.inr hnorth.2.1⟩⟩
  · exact absurd h (by decide)

theorem mem_parents : d ∈ parents dem sx sy c ↔ IsParent dem sx sy c d := by
  unfold parents
  rw [List.mem_filter, decide_eq_true_iff]
  refine ⟨fun h => h.2, fun h => ⟨?_, h⟩⟩
  have hadjacent := (computeTestParent_eq_one h.2).2
  rw [mem_rows, mem_upto, mem_upto]
  omega

theorem mem_dataCells : c ∈ dataCells dem sx ↔ IsCell sx c ∧ HasData dem c := by
  unfold dataCells
  rw [List.mem_toFinset, List.mem_filter, mem_gridLoop, decide_eq_true_iff]

theorem isMap_mark (hc : c ∈ dataCells dem sx) (hmap : IsMap dem sx parentmap) :
    IsMap dem sx (setCoeff parentmap c.1 c.2 1) := by
  refine ⟨hmap.nx_eq, fun d hd => ?_⟩
  by_cases hne : d = c
  · rw [hne, coeffAt_setCoeff]
    exact Or.inr ⟨(mem_dataCells.mp hc).2, rfl⟩
  · rw [coeffAt_setCoeff_of_ne hmap.nx_eq (mem_dataCells.mp hc).1 hd hne]
    exact hmap.zero_or d hd

/-- The marks of different cells do not touch one another. -/
theorem isMarked_mark (hc : c ∈ dataCells dem sx) (hd : d ∈ dataCells dem sx) (hmap : IsMap dem sx parentmap) :
    isMarked (setCoeff parentmap c.1 c.2 1) d = true ↔ d = c ∨ isMarked parentmap d = true := by
  unfold isMarked
  by_cases hne : d = c
  · simp [hne]
  · rw [coeffAt_setCoeff_of_ne hmap.nx_eq (mem_dataCells.mp hc).1 (mem_dataCells.mp hd).1 hne]
    simp [hne]

theorem isSearch (dem sx sy : Databox K) :
    IsSearch (parents dem sx sy) isMarked (fun c parentmap => setCoeff parentmap c.1 c.2 1) (IsMap dem sx)
      (dataCells dem sx) where
  next_mem := by
    intro c _ d hd
    have hparent := mem_parents.mp hd
    exact mem_dataCells.mpr ⟨hparent.1, (computeTestParent_eq_one hparent.2).1⟩
  inv_mark := fun _ hc _ hmap => isMap_mark hc hmap
  marked_mark := fun _ hc _ hd _ hmap => isMarked_mark hc hd hmap

/-- The tests of the loop over the neighbours are that for a parent. -/
theorem neighbourTests_eq {ii jj : ℤ} {β : Type} (x y : β) :
    (if ii = c.1 ∧ jj = c.2 then x
      else if ii ≠ c.1 ∧ jj ≠ c.2 then x
      else if ii < 0 ∨ jj < 0 ∨ ii > sx.nx - 1 ∨ jj > sx.ny - 1 then x
      else if coeffAt dem ii jj = nodata then x
      else if computeTestParent c.1 c.2 ii jj dem sx sy = 1 ∧ coeffAt parentmap ii jj ≠ 1 then y
      else x) =
    if IsParent dem sx sy c (ii, jj) then if isMarked parentmap (ii, jj) then x else y else x := by
  by_cases hparent : IsParent dem sx sy c (ii, jj)
  · obtain ⟨⟨⟨hx, hx'⟩, hy, hy'⟩, htest⟩ := id hparent
    obtain ⟨hdata, hadjacent⟩ := computeTestParent_eq_one htest
    dsimp only at hx hx' hy hy' htest hdata hadjacent
    rw [if_neg (by omega), if_neg (by omega), if_neg (by omega), if_neg hdata, if_pos hparent]
    unfold isMarked
    by_cases hmarked : coeffAt parentmap ii jj = 1
    · rw [if_neg fun h => h.2 hmarked, if_pos (decide_eq_true hmarked)]
    · rw [if_pos ⟨htest, hmarked⟩, if_neg (by simpa using hmarked)]
  · rw [if_neg hparent]
    split_ifs with hself hdiagonal hoff hnodata htest
    · rfl
    · rfl
    · rfl
    · rfl
    · exact absurd ⟨⟨⟨by omega, by omega⟩, by omega, by omega⟩, htest.1⟩ hparent
    · rfl

theorem computeParentMap_eq_visit (fuel : ℕ) (hdata : HasData dem c) (parentmap : Databox K) :
    computeParentMap dem sx sy fuel c.1 c.2 parentmap =
      visit (parents dem sx sy) isMarked (fun c parentmap => setCoeff parentmap c.1 c.2 1) fuel c parentmap := by
  induction fuel generalizing c parentmap with
  | zero => rfl
  | succ fuel ih =>
    unfold computeParentMap visit
    rw [if_neg hdata, parents, List.foldlM_filter, foldlM_flatMap]
    simp only [List.foldlM_map]
    congr 1
    funext parentmap jj
    congr 1
    funext parentmap ii
    rw [neighbourTests_eq]
    by_cases hparent : IsParent dem sx sy c (ii, jj)
    · rw [if_pos hparent, if_pos (decide_eq_true hparent)]
      rw [← ih (c := (ii, jj)) (computeTestParent_eq_one hparent.2).1]
    · rw [if_neg hparent, if_neg (by simpa using hparent)]
      rfl

/-- From a map of zeros, a search marks the cells with data that it reaches. -/
theorem search_returns {next : ℤ × ℤ → List (ℤ × ℤ)}
    (hs : IsSearch next isMarked (fun c parentmap => setCoeff parentmap c.1 c.2 1) (IsMap dem sx) (dataCells dem sx))
    (hnx : parentmap.nx = sx.nx) (hzero : ∀ d, IsCell sx d → coeffAt parentmap d.1 d.2 = 0) (hc : IsCell sx c)
    (hdata : HasData dem c) :
    ∃ parentmap', Returns (fun fuel => visit next isMarked (fun c parentmap => setCoeff parentmap c.1 c.2 1) fuel c parentmap)
      parentmap' ∧ IsMap dem sx parentmap' ∧
      ∀ d, IsCell sx d → (coeffAt parentmap' d.1 d.2 = 1 ↔ HasData dem d ∧ ReflTransGen (Follows next) c d) := by
  have hmap : IsMap dem sx parentmap := ⟨hnx, fun d hd => Or.inl (hzero d hd)⟩
  have hnone : ∀ d ∈ dataCells dem sx, isMarked parentmap d ≠ true := by
    intro d hd
    unfold isMarked
    rw [hzero d (mem_dataCells.mp hd).1]
    simp
  have hcd := mem_dataCells.mpr ⟨hc, hdata⟩
  obtain ⟨parentmap', hret, hmap', hgrows, hmarked⟩ := visit_returns hs hmap hcd (hnone c hcd)
  refine ⟨parentmap', hret, hmap', fun d hd => ⟨fun hone => ?_, fun ⟨hd', hreach⟩ => ?_⟩⟩
  · have hd' : HasData dem d := ((hmap'.zero_or d hd).resolve_left fun h0 => zero_ne_one (h0.symm.trans hone)).1
    exact ⟨hd', (hgrows.marked_iff hs hnone hcd hmarked (mem_dataCells.mpr ⟨hd, hd'⟩)).mp (decide_eq_true hone)⟩
  · exact of_decide_eq_true ((hgrows.marked_iff hs hnone hcd hmarked (mem_dataCells.mpr ⟨hd, hd'⟩)).mpr hreach)

/-- From a map of zeros, the parent map of a cell with data holds ones at the cells upstream and zeros elsewhere. -/
theorem computeParentMap_returns (hnx : parentmap.nx = sx.nx) (hzero : ∀ d, IsCell sx d → coeffAt parentmap d.1 d.2 = 0)
    (hc : IsCell sx c) (hdata : HasData dem c) :
    ∃ parentmap', Returns (fun fuel => computeParentMap dem sx sy fuel c.1 c.2 parentmap) parentmap' ∧
      parentmap'.nx = sx.nx ∧ ∀ d, IsCell sx d → coeffAt parentmap' d.1 d.2 = (upstream dem sx sy c).indicator 1 d := by
  obtain ⟨parentmap', hret, hmap', hmarked⟩ := search_returns (isSearch dem sx sy) hnx hzero hc hdata
  have hfollows : Follows (parents dem sx sy) = IsParent dem sx sy := by
    funext d d'
    exact propext mem_parents
  rw [hfollows] at hmarked
  refine ⟨parentmap', ?_, hmap'.nx_eq, fun d hd => ?_⟩
  · simpa only [computeParentMap_eq_visit _ hdata] using hret
  · by_cases hd' : d ∈ upstream dem sx sy c
    · rw [Set.indicator_of_mem hd', (hmarked d hd).mpr hd'.2]
      rfl
    · rw [Set.indicator_of_notMem hd']
      exact (hmap'.zero_or d hd).resolve_right fun h => hd' ⟨hd, (hmarked d hd).mp h.2⟩

/-! ## The loop over the grid -/

omit [LinearOrder K] in
/-- The cells are added to the area of one cell, one after another. -/
theorem foldl_sum (l : List (ℤ × ℤ)) (area : Databox K) :
    l.foldl (fun area d => setCoeff area c.1 c.2 (coeffAt area c.1 c.2 + coeffAt parentmap d.1 d.2)) area =
      setCoeff area c.1 c.2 (coeffAt area c.1 c.2 + (l.map fun d => coeffAt parentmap d.1 d.2).sum) := by
  induction l generalizing area with
  | nil => simp
  | cons d l ih =>
    rw [List.foldl_cons, ih]
    simp [add_assoc]

omit [LinearOrder K] in
theorem sum_indicator (s : Set (ℤ × ℤ)) (hs : ∀ d ∈ s, IsCell sx d) :
    ((gridLoop sx.nx sx.ny).map fun d => s.indicator (1 : ℤ × ℤ → K) d).sum = (s.ncard : K) := by
  classical
  rw [← List.sum_toFinset _ (gridLoop_nodup _ _), Finset.sum_indicator_eq_sum_filter]
  have hset : s = ((gridLoop sx.nx sx.ny).toFinset.filter (· ∈ s) : Finset (ℤ × ℤ)) := by
    ext d
    simp only [Finset.coe_filter, List.mem_toFinset, mem_gridLoop, Set.mem_ofPred_eq]
    exact ⟨fun h => ⟨hs d h, h⟩, fun h => h.2⟩
  conv_rhs => rw [hset, Set.ncard_coe_finset]
  simp

/-- The area of a cell. -/
noncomputable def upstreamCount (dem sx sy : Databox K) (c : ℤ × ℤ) : ℕ :=
  if HasData dem c then (upstream dem sx sy c).ncard else 0

theorem upstreamCell_returns (dem sy area : Databox K) (hnx : parentmap.nx = sx.nx) (hc : IsCell sx c) :
    ∃ parentmap', Returns (fun fuel => upstreamCell dem sx sy fuel (parentmap, area) c)
      (parentmap', setCoeff area c.1 c.2 (coeffAt area c.1 c.2 + upstreamCount dem sx sy c)) ∧ parentmap'.nx = sx.nx := by
  have hnx' : ((gridLoop sx.nx sx.ny).foldl (fun parentmap d => setCoeff parentmap d.1 d.2 0) parentmap).nx = sx.nx :=
    (setGrid_nx sx.nx sx.ny fun _ _ => (0 : K)).trans hnx
  have hzero' : ∀ d, IsCell sx d → coeffAt
      ((gridLoop sx.nx sx.ny).foldl (fun parentmap d => setCoeff parentmap d.1 d.2 0) parentmap) d.1 d.2 = 0 :=
    fun _ hd => coeffAt_setGrid (fun _ _ => (0 : K)) hnx hd
  have hcells : ∀ d ∈ upstream dem sx sy c, IsCell sx d := fun d hd => hd.1
  unfold upstreamCell upstreamCount
  by_cases hdata : HasData dem c
  · obtain ⟨parentmap', hret, hnx'', hvalues⟩ := computeParentMap_returns hnx' hzero' hc hdata
    refine ⟨parentmap', ?_, hnx''⟩
    have hsum : ((gridLoop sx.nx sx.ny).map fun d => coeffAt parentmap' d.1 d.2).sum = (upstream dem sx sy c).ncard := by
      rw [List.map_congr_left fun d hd => hvalues d (mem_gridLoop.mp hd)]
      exact sum_indicator _ hcells
    have hdata' : coeffAt dem c.1 c.2 ≠ nodata := hdata
    simp only [if_pos hdata', if_pos hdata, foldl_sum]
    rw [returns_bind_iff hret, hsum]
    exact returns_const _
  · refine ⟨_, ?_, hnx'⟩
    have hsum : ((gridLoop sx.nx sx.ny).map fun d => coeffAt ((gridLoop sx.nx sx.ny).foldl
        (fun parentmap d => setCoeff parentmap d.1 d.2 0) parentmap) d.1 d.2).sum = 0 := by
      apply List.sum_eq_zero
      intro x hx
      obtain ⟨d, hd, rfl⟩ := List.mem_map.mp hx
      exact hzero' d (mem_gridLoop.mp hd)
    have hdata' : ¬ coeffAt dem c.1 c.2 ≠ nodata := hdata
    simp only [if_neg hdata', if_neg hdata, foldl_sum]
    rw [Nat.cast_zero.trans hsum.symm]
    exact returns_const _

/-- The cells of the loop get their counts, one after another, and the others keep what they have. -/
theorem upstreamLoop_returns (dem sy : Databox K) (l : List (ℤ × ℤ)) (hl : ∀ c ∈ l, IsCell sx c) (hnodup : l.Nodup)
    (hparent : parentmap.nx = sx.nx) (harea : area.nx = sx.nx) :
    ∃ parentmap' area', Returns (fun fuel => l.foldlM (upstreamCell dem sx sy fuel) (parentmap, area)) (parentmap', area') ∧
      ∀ c, IsCell sx c → coeffAt area' c.1 c.2 =
        coeffAt area c.1 c.2 + if c ∈ l then (upstreamCount dem sx sy c : K) else 0 := by
  induction l generalizing parentmap area with
  | nil => exact ⟨parentmap, area, returns_const _, fun c _ => by simp⟩
  | cons c l ih =>
    obtain ⟨hnotin, hnodup⟩ := List.nodup_cons.mp hnodup
    have hc := hl c List.mem_cons_self
    obtain ⟨parentmap₁, hret₁, hparent₁⟩ := upstreamCell_returns dem sy area hparent hc
    have harea₁ : (setCoeff area c.1 c.2 (coeffAt area c.1 c.2 + upstreamCount dem sx sy c)).nx = sx.nx := harea
    obtain ⟨parentmap₂, area₂, hret₂, hvalues⟩ :=
      ih (fun d hd => hl d (List.mem_cons_of_mem _ hd)) hnodup hparent₁ harea₁
    refine ⟨parentmap₂, area₂, ?_, fun d hd => ?_⟩
    · simp only [List.foldlM_cons]
      exact (returns_bind_iff hret₁).mpr hret₂
    · rw [hvalues d hd]
      by_cases hdc : d = c
      · rw [hdc, coeffAt_setCoeff, if_neg hnotin, if_pos List.mem_cons_self, add_zero]
      · rw [coeffAt_setCoeff_of_ne harea hc hd hdc]
        simp [hdc]

/-- `ComputeUpstreamArea` returns, and gives every cell with data the number of cells upstream of it, and every cell
without data zero. -/
theorem computeUpstreamArea_counts (dem sx sy area : Databox K) (harea : area.nx = sx.nx)
    (hzero : ∀ i j, 0 ≤ i → i < sx.nx → 0 ≤ j → j < sx.ny → coeffAt area i j = 0) :
    ∃ area', Returns (computeUpstreamArea dem sx sy area) area' ∧
      ∀ i j, 0 ≤ i → i < sx.nx → 0 ≤ j → j < sx.ny → coeffAt area' i j =
        if coeffAt dem i j = nodata then 0 else ((upstream dem sx sy (i, j)).ncard : K) := by
  have hparent : (newDatabox sx.nx sx.ny sx.nz sx.x sx.y sx.z sx.dx sx.dy sx.dz).nx = sx.nx := rfl
  obtain ⟨parentmap', area', hret, hvalues⟩ := upstreamLoop_returns dem sy (gridLoop sx.nx sx.ny)
    (fun c hc => mem_gridLoop.mp hc) (gridLoop_nodup _ _) hparent harea
  refine ⟨area', ?_, fun i j hi hi' hj hj' => ?_⟩
  · exact (returns_bind_iff hret).mpr (returns_const _)
  · have hvalue := hvalues (i, j) ⟨⟨hi, hi'⟩, hj, hj'⟩
    dsimp only at hvalue
    rw [hvalue, hzero i j hi hi' hj hj', zero_add, if_pos (mem_gridLoop.mpr ⟨⟨hi, hi'⟩, hj, hj'⟩)]
    by_cases hnodata : coeffAt dem i j = nodata
    · have hcount : upstreamCount dem sx sy (i, j) = 0 := if_neg fun hdata => hdata hnodata
      rw [hcount, if_pos hnodata, Nat.cast_zero]
    · have hcount : upstreamCount dem sx sy (i, j) = (upstream dem sx sy (i, j)).ncard := if_pos hnodata
      rw [hcount, if_neg hnodata]

end

/-! ## Two cells that drain into one another -/

def flatPair : Databox ℚ := newDatabox 2 1 1 0 0 0 1 1 1

/-- The first cell slopes to the east, and the second one to the west. -/
def facingPair : Databox ℚ := setCoeff (setCoeff flatPair 0 0 (-1)) 1 0 1

theorem facingPair_counts : ∃ area', Returns (computeUpstreamArea flatPair facingPair flatPair flatPair) area' ∧
    ∀ i j, 0 ≤ i → i < 2 → 0 ≤ j → j < 1 → coeffAt area' i j =
      if coeffAt flatPair i j = nodata then 0 else ((upstream flatPair facingPair flatPair (i, j)).ncard : ℚ) :=
  computeUpstreamArea_counts flatPair facingPair flatPair flatPair rfl fun _ _ _ _ _ _ => rfl

end ParFlow.Topo
