import ParFlow.Lib.ExceptLoop
import ParFlow.Topo.SlopeDefs

/-! When the moving average is one. The routine adds up the elevation of the sink itself, once for every other cell of
its window, and the window ends behind the grid where it is wider than the grid. -/

namespace ParFlow.Topo

open IntLoop CheckedArray ExceptLoop
open ParFlow.Pfb (Databox)

section

variable {K : Type} [Field K] [LinearOrder K] (sqrt : K → K) (wsize : ℤ) (start dem : Databox K) (c : ℤ × ℤ)

/-- The other cells of the window around `c`, clipped to the grid. -/
def others : List (ℤ × ℤ) :=
  (gridLoop dem.nx dem.ny).filter fun d => decide ((|d.1 - c.1| ≤ wsize ∧ |d.2 - c.2| ≤ wsize) ∧ d ≠ c)

/-- The cells that the routine counts, some of them outside the grid. -/
def countedCells : List (ℤ × ℤ) := (windowLoop dem wsize c.1 c.2).filter fun d => decide (d.1 ≠ c.1 ∨ d.2 ≠ c.2)

/-- The sum of the current elevations. -/
def sumOver (cells : List (ℤ × ℤ)) : K := (cells.map fun d => coeffAt dem d.1 d.2).sum

/-- An interior cell that is lower than its neighbours. -/
def IsPit : Prop :=
  (0 < c.1 ∧ 0 < c.2 ∧ c.1 < dem.nx - 1 ∧ c.2 < dem.ny - 1) ∧
    coeffAt dem c.1 c.2 < coeffAt dem (c.1 - 1) c.2 ∧ coeffAt dem c.1 c.2 < coeffAt dem (c.1 + 1) c.2 ∧
    coeffAt dem c.1 c.2 < coeffAt dem c.1 (c.2 - 1) ∧ coeffAt dem c.1 c.2 < coeffAt dem c.1 (c.2 + 1)

/-- The cell is treated as a sink: it has no slope in the elevations at the start, or is a pit in the current ones. -/
def IsSink : Prop :=
  sqrt (coeffAt (startSlopeX start) c.1 c.2 * coeffAt (startSlopeX start) c.1 c.2 +
    coeffAt (startSlopeY start) c.1 c.2 * coeffAt (startSlopeY start) c.1 c.2) = 0 ∨ IsPit dem c

instance : Decidable (IsPit dem c) := inferInstanceAs (Decidable ((_ ∧ _ ∧ _ ∧ _) ∧ _ ∧ _ ∧ _ ∧ _))

instance : Decidable (IsSink sqrt start dem c) := inferInstanceAs (Decidable (_ ∨ IsPit dem c))

/-- What the routine stores in a sink. -/
def sinkValue : K :=
  ((countedCells wsize dem c).length * coeffAt dem c.1 c.2 + dem.dz / 100.0) / (countedCells wsize dem c).length

/-- A round of the loop. -/
def movedCell (dem : Databox K) (c : ℤ × ℤ) : Databox K :=
  if IsSink sqrt start dem c then setCoeff dem c.1 c.2 (sinkValue wsize dem c) else dem

/-- The routine reads within the grid, fills every sink with the average of the other cells of its window at that time,
and leaves the other cells alone. -/
def MovingAvgLaw : Prop :=
  ∃ nsink dem', computeMovingAvg sqrt wsize dem = .ok (nsink, dem') ∧
    ∀ pre c post, gridLoop dem.nx dem.ny = pre ++ c :: post → ∃ s, movingAvgLoop sqrt wsize dem pre = .ok s ∧
      (IsSink sqrt dem s c → others wsize dem c ≠ [] ∧
        coeffAt dem' c.1 c.2 = (sumOver s (others wsize dem c) + dem.dz / 100.0) / (others wsize dem c).length) ∧
      (¬ IsSink sqrt dem s c → coeffAt dem' c.1 c.2 = coeffAt dem c.1 c.2)

/-- The other cells of the window are as high as the cell on average. The last factors differ where the window is wider
than the grid. -/
def AverageAgrees (s : Databox K) : Prop :=
  others wsize dem c ≠ [] ∧
    (sumOver s (others wsize dem c) + dem.dz / 100.0) * (countedCells wsize dem c).length =
      ((countedCells wsize dem c).length * coeffAt dem c.1 c.2 + dem.dz / 100.0) * (others wsize dem c).length

end

section

variable {K : Type} [Field K] [LinearOrder K] {sqrt : K → K} {wsize i j nx : ℤ} {start dem s : Databox K} {c d : ℤ × ℤ}
  {l : List (ℤ × ℤ)}

/-! ## A round -/

omit [Field K] [LinearOrder K] in
theorem readCell_eq (h : IsCell dem (i, j)) : readCell dem i j = .ok (coeffAt dem i j) := if_pos h

theorem testSink_eq (sx sy : Databox K) (hc : IsCell dem c) : testSink sqrt sx sy dem c.1 c.2 =
    .ok (decide (sqrt (coeffAt sx c.1 c.2 * coeffAt sx c.1 c.2 + coeffAt sy c.1 c.2 * coeffAt sy c.1 c.2) = 0 ∨ IsPit dem c)) := by
  obtain ⟨⟨hi, hi'⟩, hj, hj'⟩ := id hc
  have hmin : localMin dem c.1 c.2 = .ok (decide (IsPit dem c)) := by
    unfold localMin
    by_cases hin : c.1 > 0 ∧ c.2 > 0 ∧ c.1 < dem.nx - 1 ∧ c.2 < dem.ny - 1
    · have hcell : ∀ ii jj, 0 ≤ ii → ii < dem.nx → 0 ≤ jj → jj < dem.ny → readCell dem ii jj = .ok (coeffAt dem ii jj) :=
        fun ii jj h1 h2 h3 h4 => readCell_eq ⟨⟨h1, h2⟩, h3, h4⟩
      rw [if_pos hin, bind_ok (hcell _ _ hi hi' hj hj'), bind_ok (hcell _ _ (by omega) (by omega) hj hj'),
        bind_ok (hcell _ _ (by omega) (by omega) hj hj'), bind_ok (hcell _ _ hi hi' (by omega) (by omega)),
        bind_ok (hcell _ _ hi hi' (by omega) (by omega))]
      exact congrArg Except.ok (decide_eq_decide.mpr (and_iff_right hin).symm)
    · rw [if_neg hin]
      exact congrArg Except.ok (decide_eq_false fun h => hin h.1).symm
  unfold testSink
  rw [bind_ok hmin]
  exact congrArg Except.ok (decide_eq_decide.mpr (by rw [decide_eq_true_iff]))

omit [LinearOrder K] in
theorem windowSum_eq (hc : IsCell dem c) : windowSum dem wsize c.1 c.2 =
    .ok ((countedCells wsize dem c).length * coeffAt dem c.1 c.2, (countedCells wsize dem c).length) := by
  have hfold : ∀ (l : List (ℤ × ℤ)) (s : K × K), l.foldlM (fun s d =>
      if d.1 ≠ c.1 ∨ d.2 ≠ c.2 then do
        let z ← readCell dem c.1 c.2
        .ok (s.1 + z, s.2 + 1)
      else .ok s) s = (.ok (s.1 + (l.filter fun d => decide (d.1 ≠ c.1 ∨ d.2 ≠ c.2)).length * coeffAt dem c.1 c.2,
        s.2 + (l.filter fun d => decide (d.1 ≠ c.1 ∨ d.2 ≠ c.2)).length) : Except Fault (K × K)) := by
    intro l
    induction l with
    | nil =>
      intro s
      rw [List.filter_nil, List.length_nil, Nat.cast_zero, zero_mul, add_zero, add_zero]
      rfl
    | cons d l ih =>
      intro s
      rw [List.foldlM_cons]
      by_cases hd : d.1 ≠ c.1 ∨ d.2 ≠ c.2
      · have hadd : (readCell dem c.1 c.2 >>= fun z => .ok (s.1 + z, s.2 + 1)) =
            (.ok (s.1 + coeffAt dem c.1 c.2, s.2 + 1) : Except Fault (K × K)) := bind_ok (readCell_eq hc) _
        rw [if_pos hd, bind_ok hadd, ih, List.filter_cons_of_pos (by rwa [decide_eq_true_iff]), List.length_cons]
        push_cast
        congr 2 <;> ring
      · rw [if_neg hd, bind_ok rfl, ih, List.filter_cons_of_neg (by rwa [decide_eq_true_iff])]
  unfold windowSum
  rw [hfold, zero_add, zero_add]
  rfl

theorem movingAvgCell_eq (hc : IsCell dem c) (hdata : HasData dem c) :
    movingAvgCell sqrt wsize (startSlopeX start) (startSlopeY start) dem c = .ok (movedCell sqrt wsize start dem c) := by
  have htest : testSink sqrt (startSlopeX start) (startSlopeY start) dem c.1 c.2 = .ok (decide (IsSink sqrt start dem c)) :=
    testSink_eq _ _ hc
  unfold movingAvgCell movedCell
  rw [bind_ok (readCell_eq hc), if_pos (show coeffAt dem c.1 c.2 ≠ nodata from hdata), bind_ok htest]
  by_cases hsink : IsSink sqrt start dem c
  · rw [if_pos (decide_eq_true hsink), if_pos hsink, bind_ok (windowSum_eq hc)]
    rfl
  · rw [if_neg (mt of_decide_eq_true hsink), if_neg hsink]

/-! ## The loop -/

@[simp] theorem movedCell_nx : (movedCell sqrt wsize start dem c).nx = dem.nx := by
  unfold movedCell
  split_ifs <;> rfl

@[simp] theorem movedCell_ny : (movedCell sqrt wsize start dem c).ny = dem.ny := by
  unfold movedCell
  split_ifs <;> rfl

@[simp] theorem movedCell_dz : (movedCell sqrt wsize start dem c).dz = dem.dz := by
  unfold movedCell
  split_ifs <;> rfl

theorem coeffAt_movedCell_of_ne (hc : IsCell dem c) (hd : IsCell dem d) (hne : d ≠ c) :
    coeffAt (movedCell sqrt wsize start dem c) d.1 d.2 = coeffAt dem d.1 d.2 := by
  unfold movedCell
  split_ifs
  · exact coeffAt_setCoeff_of_ne rfl hc hd hne
  · rfl

/-- The grid, and what the loop leaves alone. -/
structure SameOff (cells : List (ℤ × ℤ)) (dem dem' : Databox K) : Prop where
  nx_eq : dem'.nx = dem.nx
  ny_eq : dem'.ny = dem.ny
  dz_eq : dem'.dz = dem.dz
  coeff_eq : ∀ d, IsCell dem d → d ∉ cells → coeffAt dem' d.1 d.2 = coeffAt dem d.1 d.2

variable (sqrt wsize start dem) in
theorem sameOff_foldl (l : List (ℤ × ℤ)) (hl : ∀ c ∈ l, IsCell dem c) :
    SameOff l dem (l.foldl (movedCell sqrt wsize start) dem) := by
  induction l generalizing dem with
  | nil => exact ⟨rfl, rfl, rfl, fun _ _ _ => rfl⟩
  | cons c l ih =>
    have hcell : ∀ d, IsCell (movedCell sqrt wsize start dem c) d ↔ IsCell dem d := fun d => by
      unfold IsCell
      rw [movedCell_nx, movedCell_ny]
    obtain ⟨hnx, hny, hdz, hcoeff⟩ := ih _ fun d hd => (hcell d).mpr (hl d (List.mem_cons_of_mem _ hd))
    refine ⟨hnx.trans movedCell_nx, hny.trans movedCell_ny, hdz.trans movedCell_dz, fun d hd hdl => ?_⟩
    rw [List.mem_cons, not_or] at hdl
    exact (hcoeff d ((hcell d).mpr hd) hdl.2).trans (coeffAt_movedCell_of_ne (hl c List.mem_cons_self) hd hdl.1)

omit [LinearOrder K] in
theorem SameOff.sinkValue_eq {dem' : Databox K} {cells : List (ℤ × ℤ)} (h : SameOff cells dem dem') (hc : IsCell dem c)
    (hcells : c ∉ cells) : sinkValue wsize dem' c = sinkValue wsize dem c := by
  unfold sinkValue countedCells windowLoop
  rw [h.nx_eq, h.ny_eq, h.dz_eq, h.coeff_eq c hc hcells]

omit [Field K] [LinearOrder K] in
theorem SameOff.isCell_iff {dem' : Databox K} {cells : List (ℤ × ℤ)} (h : SameOff cells dem dem') :
    IsCell dem' c ↔ IsCell dem c := by
  unfold IsCell
  rw [h.nx_eq, h.ny_eq]

theorem foldlM_movingAvgCell (l : List (ℤ × ℤ)) (hl : ∀ c ∈ l, IsCell dem c ∧ HasData dem c) (hnodup : l.Nodup) :
    l.foldlM (movingAvgCell sqrt wsize (startSlopeX start) (startSlopeY start)) dem =
      .ok (l.foldl (movedCell sqrt wsize start) dem) := by
  induction l generalizing dem with
  | nil => rfl
  | cons c l ih =>
    obtain ⟨hcl, hnodup'⟩ := List.nodup_cons.mp hnodup
    obtain ⟨hc, hdata⟩ := hl c List.mem_cons_self
    rw [List.foldlM_cons, bind_ok (movingAvgCell_eq hc hdata), List.foldl_cons]
    refine ih (fun d hd => ?_) hnodup'
    obtain ⟨hd', hdata'⟩ := hl d (List.mem_cons_of_mem _ hd)
    refine ⟨?_, (coeffAt_movedCell_of_ne hc hd' fun h => hcl (h ▸ hd)).trans_ne hdata'⟩
    unfold IsCell
    rw [movedCell_nx, movedCell_ny]
    exact hd'

variable (sqrt) in
theorem countSinks_ok (sx sy : Databox K) (l : List (ℤ × ℤ)) (hl : ∀ c ∈ l, IsCell dem c) (nsink : ℤ) :
    ∃ nsink', l.foldlM (countSink sqrt sx sy dem) nsink = .ok nsink' := by
  induction l generalizing nsink with
  | nil => exact ⟨nsink, rfl⟩
  | cons c l ih =>
    have hc := hl c List.mem_cons_self
    have hround : ∃ m, countSink sqrt sx sy dem nsink c = .ok m := by
      unfold countSink
      rw [bind_ok (readCell_eq hc)]
      split_ifs
      · rw [bind_ok (testSink_eq _ _ hc)]
        exact ⟨_, rfl⟩
      · exact ⟨_, rfl⟩
    obtain ⟨m, hm⟩ := hround
    rw [List.foldlM_cons, bind_ok hm]
    exact ih (fun d hd => hl d (List.mem_cons_of_mem _ hd)) m

/-! ## The window -/

omit [Field K] [LinearOrder K] in
theorem mem_windowLoop : d ∈ windowLoop dem wsize i j ↔
    (windowLow i wsize ≤ d.1 ∧ d.1 ≤ windowHigh i wsize dem.nx) ∧ windowLow j wsize ≤ d.2 ∧ d.2 ≤ windowHigh j wsize dem.ny := by
  rw [windowLoop, mem_rows, mem_upto, mem_upto, Int.lt_add_one_iff, Int.lt_add_one_iff]

theorem windowLow_le (hw : 0 < wsize) (hi : 0 ≤ i) : windowLow i wsize ≤ i := by
  unfold windowLow
  split_ifs <;> omega

theorem le_windowHigh (hw : 0 < wsize) (hi : i < nx) : i ≤ windowHigh i wsize nx := by
  unfold windowHigh
  split_ifs <;> omega

omit [Field K] [LinearOrder K] in
/-- The window holds the cell to the east, or the one to the west. -/
theorem countedCells_ne_nil (hw : 0 < wsize) (hc : IsCell dem c) : countedCells wsize dem c ≠ [] := by
  obtain ⟨⟨hi, hi'⟩, hj, hj'⟩ := hc
  have hrow := windowLow_le hw hj
  have hrow' := le_windowHigh hw hj'
  suffices h : ∃ ii, ii ≠ c.1 ∧ windowLow c.1 wsize ≤ ii ∧ ii ≤ windowHigh c.1 wsize dem.nx by
    obtain ⟨ii, hne, hii⟩ := h
    refine List.ne_nil_of_mem (a := (ii, c.2)) (List.mem_filter.mpr ⟨mem_windowLoop.mpr ⟨hii, hrow, hrow'⟩, ?_⟩)
    exact decide_eq_true (Or.inl hne)
  unfold windowLow windowHigh
  rcases le_or_gt c.1 wsize with hle | hgt
  · rw [if_pos hle, if_pos hle]
    exact ⟨c.1 + 1, by omega, by omega, by omega⟩
  · rw [if_neg (not_le.mpr hgt), if_neg (not_le.mpr hgt)]
    refine ⟨c.1 - 1, by omega, by omega, ?_⟩
    split_ifs <;> omega

omit [Field K] [LinearOrder K] in
/-- A window that is not wider than the grid is clipped on both sides. -/
theorem countedCells_length (hc : IsCell dem c) (hx : c.1 ≤ wsize → c.1 + wsize < dem.nx)
    (hy : c.2 ≤ wsize → c.2 + wsize < dem.ny) : (countedCells wsize dem c).length = (others wsize dem c).length := by
  refine List.Perm.length_eq ((List.perm_ext_iff_of_nodup ?_ ((gridLoop_nodup _ _).filter _)).mpr fun d => ?_)
  · exact (rows_nodup (upto_nodup _ _) (upto_nodup _ _)).filter _
  · have hne : d ≠ c ↔ d.1 ≠ c.1 ∨ d.2 ≠ c.2 := by
      rw [Ne, Prod.ext_iff, not_and_or]
    have hside : ∀ {n i k : ℤ}, 0 ≤ i → i < n → (i ≤ wsize → i + wsize < n) →
        (windowLow i wsize ≤ k ∧ k ≤ windowHigh i wsize n ↔ (0 ≤ k ∧ k < n) ∧ |k - i| ≤ wsize) := by
      intro n i k h0 hn hwide
      rw [abs_le]
      unfold windowLow windowHigh
      split_ifs <;> omega
    rw [countedCells, List.mem_filter, mem_windowLoop, decide_eq_true_iff, List.mem_filter, mem_gridLoop,
      decide_eq_true_iff, hne, hside hc.1.1 hc.1.2 hx, hside hc.2.1 hc.2.2 hy]
    unfold IsCell
    tauto

variable [IsStrictOrderedRing K]

/-- There the code is right where the other cells are on average as high as the sink. -/
theorem averageAgrees_iff (hw : 0 < wsize) (hc : IsCell dem c) (hx : c.1 ≤ wsize → c.1 + wsize < dem.nx)
    (hy : c.2 ≤ wsize → c.2 + wsize < dem.ny) : AverageAgrees wsize dem c s ↔
      sumOver s (others wsize dem c) = (others wsize dem c).length * coeffAt dem c.1 c.2 := by
  have hlength := countedCells_length hc hx hy
  have hne : others wsize dem c ≠ [] := by
    rw [← List.length_pos_iff, ← hlength, List.length_pos_iff]
    exact countedCells_ne_nil hw hc
  have hpos : ((others wsize dem c).length : K) ≠ 0 := Nat.cast_ne_zero.mpr (List.length_pos_iff.mpr hne).ne'
  unfold AverageAgrees
  rw [hlength, mul_left_inj' hpos, add_left_inj]
  exact and_iff_right hne

theorem sinkValue_eq_iff (hw : 0 < wsize) (hc : IsCell dem c) : (others wsize dem c ≠ [] ∧
    sinkValue wsize dem c = (sumOver s (others wsize dem c) + dem.dz / 100.0) / (others wsize dem c).length) ↔
    AverageAgrees wsize dem c s := by
  refine and_congr_right fun hne => ?_
  have hcounted : ((countedCells wsize dem c).length : K) ≠ 0 :=
    Nat.cast_ne_zero.mpr (List.length_pos_iff.mpr (countedCells_ne_nil hw hc)).ne'
  rw [sinkValue, div_eq_div_iff hcounted (Nat.cast_ne_zero.mpr (List.length_pos_iff.mpr hne).ne')]
  exact eq_comm

omit [IsStrictOrderedRing K] in
theorem movingAvgLoop_eq {pre post : List (ℤ × ℤ)} (hdata : ∀ c, IsCell dem c → HasData dem c)
    (hsplit : gridLoop dem.nx dem.ny = pre ++ post) :
    movingAvgLoop sqrt wsize dem pre = .ok (pre.foldl (movedCell sqrt wsize dem) dem) := by
  refine foldlM_movingAvgCell pre (fun c hc => ?_) ?_
  · have hcell : IsCell dem c := mem_gridLoop.mp (hsplit ▸ List.mem_append_left _ hc)
    exact ⟨hcell, hdata c hcell⟩
  · exact (List.nodup_append.mp (hsplit ▸ gridLoop_nodup dem.nx dem.ny)).1

omit [IsStrictOrderedRing K] in
/-- The final elevation of a cell is the one that its own round leaves. -/
theorem coeffAt_foldl_movedCell {pre post : List (ℤ × ℤ)} (hsplit : gridLoop dem.nx dem.ny = pre ++ c :: post) :
    coeffAt ((gridLoop dem.nx dem.ny).foldl (movedCell sqrt wsize dem) dem) c.1 c.2 =
      if IsSink sqrt dem (pre.foldl (movedCell sqrt wsize dem) dem) c then sinkValue wsize dem c
      else coeffAt dem c.1 c.2 := by
  have hnodup := List.nodup_append.mp (hsplit ▸ gridLoop_nodup dem.nx dem.ny)
  have hcpost : c ∉ post := (List.nodup_cons.mp hnodup.2.1).1
  have hcpre : c ∉ pre := fun h => hnodup.2.2 c h c List.mem_cons_self rfl
  have hcells : ∀ d ∈ pre ++ c :: post, IsCell dem d := fun d hd => mem_gridLoop.mp (hsplit ▸ hd)
  have hc : IsCell dem c := hcells c (by simp)
  have hpre := sameOff_foldl sqrt wsize dem dem pre fun d hd =>
    hcells d (List.mem_append_left _ hd)
  obtain ⟨s, hs⟩ : ∃ s, s = pre.foldl (movedCell sqrt wsize dem) dem := ⟨_, rfl⟩
  rw [← hs] at hpre ⊢
  have hround : ∀ d, IsCell (movedCell sqrt wsize dem s c) d ↔ IsCell dem d := fun d => by
    unfold IsCell
    rw [movedCell_nx, movedCell_ny, hpre.nx_eq, hpre.ny_eq]
  have hpost := sameOff_foldl sqrt wsize dem (movedCell sqrt wsize dem s c) post
    fun d hd => (hround d).mpr (hcells d (by simp [hd]))
  rw [hsplit, List.foldl_append, List.foldl_cons, ← hs, hpost.coeff_eq c ((hround c).mpr hc) hcpost, movedCell]
  split_ifs
  · rw [coeffAt_setCoeff, hpre.sinkValue_eq hc hcpre]
  · exact hpre.coeff_eq c hc hcpre

omit [IsStrictOrderedRing K] in
variable (sqrt wsize) in
theorem computeMovingAvg_eq (hdata : ∀ c, IsCell dem c → HasData dem c) :
    ∃ nsink, computeMovingAvg sqrt wsize dem =
      .ok (nsink, (gridLoop dem.nx dem.ny).foldl (movedCell sqrt wsize dem) dem) := by
  obtain ⟨dem', hdem'⟩ : ∃ dem', dem' = (gridLoop dem.nx dem.ny).foldl (movedCell sqrt wsize dem) dem := ⟨_, rfl⟩
  have hframe : SameOff (gridLoop dem.nx dem.ny) dem dem' := hdem' ▸ sameOff_foldl sqrt wsize dem dem _ fun c hc => mem_gridLoop.mp hc
  obtain ⟨nsink, hnsink⟩ := countSinks_ok sqrt (computeSlopeXUpwind dem' dem.dx (startSlopeX dem))
    (computeSlopeYUpwind dem' dem.dy (startSlopeY dem)) (gridLoop dem.nx dem.ny)
    (fun c hc => hframe.isCell_iff.mpr (mem_gridLoop.mp hc)) 0
  refine ⟨nsink, ?_⟩
  unfold computeMovingAvg
  rw [bind_ok (movingAvgLoop_eq hdata (List.append_nil _).symm), ← hdem', bind_ok hnsink]

end

/-! ## A corner -/

/-- Three cells of the same elevation, and a lower one. -/
def cornerDem : Databox ℚ := ⟨2, 2, 1, 0, 0, 0, 1, 1, 1, fun n => [1, 1, 1, 0].getD n.toNat 0⟩

theorem cornerDem_hasData (c : ℤ × ℤ) (hc : IsCell cornerDem c) : HasData cornerDem c := by
  obtain ⟨i, j⟩ := c
  obtain ⟨⟨hi, hi'⟩, hj, hj'⟩ := hc
  change i < 2 at hi'
  change j < 2 at hj'
  dsimp only at hi hj
  interval_cases i <;> interval_cases j <;> decide +kernel

end ParFlow.Topo
