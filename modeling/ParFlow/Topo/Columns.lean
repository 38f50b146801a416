import ParFlow.Topo.ColumnDefs

/-! Where a column has an active cell, its top and its bottom are the highest and the lowest one. -/

namespace ParFlow.Topo

open IntLoop
open ParFlow.Pfb (Databox)

section

variable {K : Type} [Field K] [LinearOrder K] {mask top bottom : Databox K} {i j k : ℤ}

/-- A cell of the column with a positive mask. -/
def IsActive (mask : Databox K) (i j k : ℤ) : Prop := (0 ≤ k ∧ k < mask.nz) ∧ 0 < layerAt mask i j k

/-- `top` and `bottom` describe the column of the mask. -/
structure ColumnConsistent (mask top bottom : Databox K) (i j : ℤ) : Prop where
  top_iff_bottom : coeffAt top i j = -1 ↔ coeffAt bottom i j = -1
  bottom_iff : coeffAt bottom i j = -1 ↔ ¬ ∃ k, IsActive mask i j k
  cells : (∃ k, IsActive mask i j k) → ∃ b t : ℤ, coeffAt bottom i j = b ∧ coeffAt top i j = t ∧ b ≤ t ∧
    IsActive mask i j b ∧ IsActive mask i j t ∧ ∀ k, IsActive mask i j k → b ≤ k ∧ k ≤ t

theorem topSearch_active (h : ∃ k, IsActive mask i j k) :
    IsActive mask i j (topSearch mask i j) ∧ ∀ k, IsActive mask i j k → k ≤ topSearch mask i j := by
  obtain ⟨k, hk, hpos⟩ := h
  obtain ⟨t, hfind, ht, hkt, htz, habove⟩ := find?_upto_reverse (p := fun k => decide (layerAt mask i j k > 0)) hk
    (by simpa using hpos)
  have hsearch : topSearch mask i j = t := by
    unfold topSearch
    rw [hfind]
    rfl
  rw [hsearch]
  refine ⟨⟨⟨by omega, htz⟩, by simpa using ht⟩, fun l hl => ?_⟩
  by_contra hlt
  exact habove l (by omega) hl.1.2 (by simpa using hl.2)

theorem bottomSearch_active (h : ∃ k, IsActive mask i j k) :
    IsActive mask i j (bottomSearch mask i j) ∧ ∀ k, IsActive mask i j k → bottomSearch mask i j ≤ k := by
  obtain ⟨k, hk, hpos⟩ := h
  obtain ⟨b, hfind, hb, hb0, hbk, hbelow⟩ := find?_upto (p := fun k => decide (layerAt mask i j k > 0)) hk
    (by simpa using hpos)
  have hsearch : bottomSearch mask i j = b := by
    unfold bottomSearch
    rw [hfind]
    rfl
  rw [hsearch]
  refine ⟨⟨⟨hb0, by omega⟩, by simpa using hb⟩, fun l hl => ?_⟩
  by_contra hlt
  exact hbelow l hl.1.1 (by omega) (by simpa using hl.2)

/-- The search upwards ends behind the last layer of a column without active cells. -/
theorem bottomSearch_empty (h : ¬ ∃ k, IsActive mask i j k) : bottomSearch mask i j = max 0 mask.nz := by
  have hfind : ((upto 0 mask.nz).find? fun k => decide (layerAt mask i j k > 0)) = none := by
    rw [List.find?_eq_none]
    intro k hk hpos
    exact h ⟨k, mem_upto.mp hk, by simpa using hpos⟩
  unfold bottomSearch
  rw [hfind]
  rfl

variable [IsStrictOrderedRing K]

theorem cast_ne_neg_one (hk : 0 ≤ k) : (k : K) ≠ -1 := by
  have hcast : (0 : K) ≤ k := by exact_mod_cast hk
  intro h
  rw [h] at hcast
  exact absurd hcast (not_le.mpr (neg_lt_zero.mpr one_pos))

theorem columnConsistent_iff (mask top bottom : Databox K) (i j : ℤ) (hcell : IsCell mask (i, j)) (htop : top.nx = mask.nx)
    (hbottom : bottom.nx = mask.nx) :
    ColumnConsistent mask (computeTop mask top) (computeBottom mask bottom) i j ↔ ∃ k, IsActive mask i j k := by
  have ht : coeffAt (computeTop mask top) i j = if topSearch mask i j ≥ 0 then (topSearch mask i j : K) else -1 :=
    coeffAt_setGrid _ htop hcell
  have hb : coeffAt (computeBottom mask bottom) i j =
      if bottomSearch mask i j ≥ 0 then (bottomSearch mask i j : K) else -1 := coeffAt_setGrid _ hbottom hcell
  constructor
  · intro h
    by_contra hempty
    have hk : 0 ≤ bottomSearch mask i j := bottomSearch_empty hempty ▸ le_max_left _ _
    rw [if_pos hk] at hb
    exact cast_ne_neg_one hk (hb.symm.trans (h.bottom_iff.mpr hempty))
  · intro hactive
    obtain ⟨htop', hhigh⟩ := topSearch_active hactive
    obtain ⟨hbottom', hlow⟩ := bottomSearch_active hactive
    rw [if_pos htop'.1.1] at ht
    rw [if_pos hbottom'.1.1] at hb
    have hne := ht.trans_ne (cast_ne_neg_one htop'.1.1)
    have hne' := hb.trans_ne (cast_ne_neg_one hbottom'.1.1)
    exact ⟨iff_of_false hne hne', iff_of_false hne' (not_not.mpr hactive), fun _ =>
      ⟨_, _, hb, ht, hlow _ htop', hbottom', htop', fun k hk => ⟨hlow k hk, hhigh k hk⟩⟩⟩

end

/-! ## Columns of one layer -/

/-- One column, with an inactive cell. -/
def emptyColumn : Databox ℚ := ⟨1, 1, 1, 0, 0, 0, 1, 1, 1, fun _ => 0⟩

theorem emptyColumn_iff : ColumnConsistent emptyColumn (computeTop emptyColumn emptyColumn)
    (computeBottom emptyColumn emptyColumn) 0 0 ↔ ∃ k, IsActive emptyColumn 0 0 k :=
  columnConsistent_iff emptyColumn emptyColumn emptyColumn 0 0 (by decide) rfl rfl

/-- The bottom of the column is 1, behind its only layer. -/
theorem emptyColumn_not_consistent : IsCell emptyColumn (0, 0) ∧
    ¬ ColumnConsistent emptyColumn (computeTop emptyColumn emptyColumn) (computeBottom emptyColumn emptyColumn) 0 0 := by
  refine ⟨by decide, fun h => ?_⟩
  have htop : coeffAt (computeTop emptyColumn emptyColumn) 0 0 = -1 := by decide +kernel
  have hbottom : coeffAt (computeBottom emptyColumn emptyColumn) 0 0 = 1 := by decide +kernel
  exact absurd (hbottom.symm.trans (h.top_iff_bottom.mp htop)) (by norm_num)

end ParFlow.Topo

/-! The transmissivity of a column that has an active cell. The search for the top has no end of its own. -/

namespace ParFlow.Topo

open IntLoop FuelRun
open ParFlow.Pfb (Databox)

section

variable {K : Type} [Field K]

/-- A cell of the column in the domain of the mask. -/
def InDomain (mask : Databox K) (i j k : ℤ) : Prop := (0 ≤ k ∧ k < mask.nz) ∧ layerAt mask i j k ≠ 0

/-- `t` is the topmost active cell of the column. -/
def IsTopmost (mask : Databox K) (i j t : ℤ) : Prop := InDomain mask i j t ∧ ∀ k, InDomain mask i j k → k ≤ t

/-- The `nlayers` layers from `t` downwards. -/
def counted (nlayers t : ℤ) : Finset ℤ := (upto (max 0 (t - nlayers + 1)) (t + 1)).toFinset

/-- The cells of both masks are the same. Nothing is said of the memory around them. -/
structure SameBox (mask mask' : Databox K) : Prop where
  nx_eq : mask'.nx = mask.nx
  ny_eq : mask'.ny = mask.ny
  nz_eq : mask'.nz = mask.nz
  layer_eq : ∀ i j k, IsCell mask (i, j) → 0 ≤ k → k < mask.nz → layerAt mask' i j k = layerAt mask i j k

variable [LinearOrder K]

/-- The search comes to an end, and the column gets the transmissivity of its upper layers. -/
structure ColumnLaw (nlayers : ℤ) (mask perm trans trans' : Databox K) (i j : ℤ) : Prop where
  search : ∃ ktop, Returns (fun fuel => findTop mask i j fuel (perm.nz - 1)) ktop ∧
    (0 ≤ ktop ∧ ktop < perm.nz ∨ ktop < 0 ∧ ¬ ∃ k, InDomain mask i j k)
  active : ∀ t, IsTopmost mask i j t → coeffAt trans' i j = coeffAt trans i j +
    perm.dz * ∑ k ∈ counted nlayers t with layerAt mask i j k ≠ 0, layerAt perm i j k
  inactive : (¬ ∃ k, InDomain mask i j k) → coeffAt trans' i j = coeffAt trans i j

def SatLaw (nlayers : ℤ) (mask perm trans : Databox K) : Prop :=
  ∃ trans', Returns (computeSatTransmissivity nlayers mask perm trans) trans' ∧
    ∀ i j, IsCell perm (i, j) → ColumnLaw nlayers mask perm trans trans' i j

/-- The column has an active cell, and nothing is missing where the mask is neither 0 nor 1. -/
def ColumnCovered (nlayers : ℤ) (mask perm : Databox K) (i j : ℤ) : Prop :=
  ∃ t, IsTopmost mask i j t ∧
    perm.dz * ∑ k ∈ counted nlayers t with layerAt mask i j k ≠ 0 ∧ layerAt mask i j k ≠ 1, layerAt perm i j k = 0

end

section

variable {K : Type} [Field K] [LinearOrder K] {nlayers i j k t : ℤ} {mask mask' perm trans : Databox K}

/-! ## The search -/

omit [LinearOrder K] in
theorem exists_isTopmost (h : ∃ k, InDomain mask i j k) : ∃ t, IsTopmost mask i j t :=
  Int.exists_greatest_of_bdd ⟨mask.nz, fun _ hk => hk.1.2.le⟩ h

omit [LinearOrder K] in
theorem IsTopmost.unique {t' : ℤ} (h : IsTopmost mask i j t) (h' : IsTopmost mask i j t') : t = t' :=
  le_antisymm (h'.2 t h.1) (h.2 t' h'.1)

theorem findTop_returns (h : IsTopmost mask i j t) (htk : t ≤ k) (hk : k < mask.nz) :
    Returns (fun fuel => findTop mask i j fuel k) t := by
  obtain ⟨n, rfl⟩ := Int.le.dest htk
  induction n with
  | zero =>
    rw [Nat.cast_zero, add_zero]
    exact returns_of_add 1 fun m => if_neg h.1.2
  | succ n ih =>
    refine returns_of_succ (ih (by omega) (by omega)) fun m => ?_
    have hzero : layerAt mask i j (t + (n + 1 : ℕ)) = 0 := by
      by_contra hne
      have := h.2 _ ⟨⟨by have := h.1.1.1; omega, hk⟩, hne⟩
      omega
    rw [findTop, if_pos hzero]
    congr 1
    omega

theorem findTop_not_returns (h : ∀ l, l ≤ k → layerAt mask i j l = 0) (t : ℤ) :
    ¬ Returns (fun fuel => findTop mask i j fuel k) t := by
  have hfuel : ∀ fuel k, (∀ l, l ≤ k → layerAt mask i j l = 0) → findTop mask i j fuel k = .error .fuel := by
    intro fuel
    induction fuel with
    | zero => exact fun _ _ => rfl
    | succ fuel ih =>
      intro k hzero
      rw [findTop, if_pos (hzero k le_rfl)]
      exact ih (k - 1) fun l hl => hzero l (by omega)
  rintro ⟨N, hN⟩
  have hrun : findTop mask i j N k = .ok t := hN N le_rfl
  rw [hfuel N k h] at hrun
  cases hrun

/-! ## The layers -/

theorem mem_counted {l : ℤ} : l ∈ counted nlayers t ↔ (0 ≤ l ∧ t - nlayers < l) ∧ l ≤ t := by
  rw [counted, List.mem_toFinset, mem_upto, max_le_iff, Int.lt_add_one_iff, Int.add_one_le_iff]

theorem counted_eq_empty (h : nlayers ≤ 0 ∨ t < 0) : counted nlayers t = ∅ := by
  refine Finset.eq_empty_of_forall_notMem fun l hl => ?_
  have := mem_counted.mp hl
  omega

/-- What the code adds for a layer. -/
def layerAmount (mask perm : Databox K) (i j k : ℤ) : K := if layerAt mask i j k = 1 then layerAt perm i j k * perm.dz else 0

theorem addLayer_eq : addLayer mask perm i j k trans =
    setCoeff trans i j (coeffAt trans i j + layerAmount mask perm i j k) := by
  unfold addLayer layerAmount
  split_ifs
  · rfl
  · rw [add_zero, setCoeff_self]

theorem scanLayers_stops (layers : ℤ) (trans : Databox K) (h : ¬ (layers < nlayers ∧ k ≥ 0)) :
    Returns (fun fuel => scanLayers nlayers mask perm i j fuel layers k trans) (setCoeff trans i j
      (coeffAt trans i j + ∑ l ∈ counted (nlayers - layers) k, layerAmount mask perm i j l)) := by
  rw [counted_eq_empty (by omega), Finset.sum_empty, add_zero, setCoeff_self]
  exact returns_of_add 1 fun m => if_neg h

variable (nlayers mask perm i j) in
theorem scanLayers_returns (n : ℕ) (layers k : ℤ) (trans : Databox K) (hk : k < n) :
    Returns (fun fuel => scanLayers nlayers mask perm i j fuel layers k trans) (setCoeff trans i j
      (coeffAt trans i j + ∑ l ∈ counted (nlayers - layers) k, layerAmount mask perm i j l)) := by
  induction n generalizing layers k trans with
  | zero => exact scanLayers_stops layers trans (by omega)
  | succ n ih =>
    by_cases hgo : layers < nlayers ∧ k ≥ 0
    · have hcounted : counted (nlayers - layers) k = insert k (counted (nlayers - (layers + 1)) (k - 1)) := by
        ext l
        rw [Finset.mem_insert, mem_counted, mem_counted]
        omega
      have hnotin : k ∉ counted (nlayers - (layers + 1)) (k - 1) := by
        rw [mem_counted]
        omega
      have hrest := ih (layers + 1) (k - 1) (addLayer mask perm i j k trans) (by omega)
      rw [hcounted, Finset.sum_insert hnotin, ← add_assoc]
      rw [addLayer_eq, setCoeff_setCoeff, coeffAt_setCoeff, ← addLayer_eq] at hrest
      exact returns_of_succ hrest fun m => if_pos hgo
    · exact scanLayers_stops layers trans hgo

/-- What the code leaves out: active cells whose mask is not 1. -/
theorem sum_domain (mask perm : Databox K) (i j : ℤ) (s : Finset ℤ) :
    perm.dz * ∑ k ∈ s with layerAt mask i j k ≠ 0, layerAt perm i j k = ∑ k ∈ s, layerAmount mask perm i j k +
      perm.dz * ∑ k ∈ s with layerAt mask i j k ≠ 0 ∧ layerAt mask i j k ≠ 1, layerAt perm i j k := by
  simp only [Finset.mul_sum, Finset.sum_filter, ← Finset.sum_add_distrib]
  refine Finset.sum_congr rfl fun k _ => ?_
  unfold layerAmount
  rcases eq_or_ne (layerAt mask i j k) 1 with hone | hone
  · rw [if_pos hone, if_pos (hone.trans_ne one_ne_zero), if_neg fun h => h.2 hone, mul_zero, add_zero, mul_comm]
  · rw [if_neg hone, zero_add]
    exact congrArg (perm.dz * ·) (if_congr (and_iff_left hone).symm rfl rfl)

/-! ## The grid -/

theorem satColumn_returns (hnz : mask.nz = perm.nz) (h : IsTopmost mask i j t) (trans : Databox K) :
    Returns (fun fuel => satColumn nlayers mask perm fuel trans (i, j))
      (setCoeff trans i j (coeffAt trans i j + ∑ l ∈ counted nlayers t, layerAmount mask perm i j l)) := by
  have hsearch : Returns (fun fuel => findTop mask i j fuel (perm.nz - 1)) t :=
    findTop_returns h (by have := h.1.1; omega) (by omega)
  have hscan := scanLayers_returns nlayers i j mask perm (t + 1).toNat 0 t trans
    (by have := h.1.1; omega)
  rw [sub_zero] at hscan
  exact (returns_bind_iff hsearch).mpr hscan

variable (nlayers) in
theorem computeSatTransmissivity_returns (hnz : mask.nz = perm.nz) (htrans : trans.nx = perm.nx) {top : ℤ × ℤ → ℤ}
    (htop : ∀ c, IsCell perm c → IsTopmost mask c.1 c.2 (top c)) :
    ∃ trans', Returns (computeSatTransmissivity nlayers mask perm trans) trans' ∧ ∀ c, IsCell perm c →
      coeffAt trans' c.1 c.2 = coeffAt trans c.1 c.2 + ∑ l ∈ counted nlayers (top c), layerAmount mask perm c.1 c.2 l := by
  refine ⟨_, returns_foldlM (fun c hc st => satColumn_returns hnz (htop c (mem_gridLoop.mp hc)) st) trans, fun c hc => ?_⟩
  rw [coeffAt_foldl_update
      (fun c a => a + ∑ l ∈ counted nlayers (top c), layerAmount mask perm c.1 c.2 l)
      (fun c hc => mem_gridLoop.mp hc) (gridLoop_nodup _ _) htrans hc, if_pos (mem_gridLoop.mpr hc)]

theorem columnLaw_iff {trans' : Databox K} (hnz : mask.nz = perm.nz) (h : IsTopmost mask i j t)
    (hvalue : coeffAt trans' i j = coeffAt trans i j + ∑ l ∈ counted nlayers t, layerAmount mask perm i j l) :
    ColumnLaw nlayers mask perm trans trans' i j ↔ ColumnCovered nlayers mask perm i j := by
  have hamount : (coeffAt trans' i j = coeffAt trans i j +
      perm.dz * ∑ k ∈ counted nlayers t with layerAt mask i j k ≠ 0, layerAt perm i j k) ↔
      perm.dz * ∑ k ∈ counted nlayers t with layerAt mask i j k ≠ 0 ∧ layerAt mask i j k ≠ 1, layerAt perm i j k = 0 := by
    rw [hvalue, sum_domain, add_right_inj, left_eq_add]
  constructor
  · exact fun hlaw => ⟨t, h, hamount.mp (hlaw.active t h)⟩
  · rintro ⟨t', ht', hzero⟩
    obtain rfl := h.unique ht'
    have hbounds := h.1.1
    refine ⟨⟨t, findTop_returns h (by omega) (by omega), Or.inl ⟨hbounds.1, by omega⟩⟩, fun t' ht' => ?_,
      fun hempty => absurd ⟨t, h.1⟩ hempty⟩
    obtain rfl := h.unique ht'
    exact hamount.mpr hzero

omit [LinearOrder K] in
theorem SameBox.inDomain_iff (h : SameBox mask mask') (hc : IsCell mask (i, j)) : InDomain mask' i j k ↔ InDomain mask i j k := by
  unfold InDomain
  rw [h.nz_eq]
  exact and_congr_right fun hk => by rw [h.layer_eq i j k hc hk.1 hk.2]

omit [LinearOrder K] in
theorem SameBox.isTopmost_iff (h : SameBox mask mask') (hc : IsCell mask (i, j)) :
    IsTopmost mask' i j t ↔ IsTopmost mask i j t := by
  unfold IsTopmost
  simp only [h.inDomain_iff hc]

theorem SameBox.columnCovered (h : SameBox mask mask') (hc : IsCell mask (i, j)) (hcovered : ColumnCovered nlayers mask perm i j) :
    ColumnCovered nlayers mask' perm i j := by
  obtain ⟨t, ht, hzero⟩ := hcovered
  refine ⟨t, (h.isTopmost_iff hc).mpr ht, ?_⟩
  refine Eq.trans (congrArg (perm.dz * ·) ?_) hzero
  refine Finset.sum_congr (Finset.filter_congr fun k hk => ?_) fun _ _ => rfl
  have hk' := mem_counted.mp hk
  rw [h.layer_eq i j k hc hk'.1.1 (by have := ht.1.1; omega)]

/-- A mask with nothing but zeros in front of it. -/
def zeroBefore (mask : Databox K) : Databox K := { mask with coeffs := fun n => if 0 ≤ n then mask.coeffs n else 0 }

omit [LinearOrder K] in
theorem sameBox_zeroBefore (mask : Databox K) : SameBox mask (zeroBefore mask) := by
  refine ⟨rfl, rfl, rfl, fun i j k hc h1 h2 => if_pos ?_⟩
  obtain ⟨⟨hi, hi'⟩, hj, hj'⟩ := hc
  dsimp only at hi hi' hj hj'
  have hnx : 0 ≤ mask.nx := by omega
  have hplane := mul_nonneg (mul_nonneg h1 (show 0 ≤ mask.ny by omega)) hnx
  have hrow := mul_nonneg hj hnx
  show 0 ≤ k * mask.ny * mask.nx + j * mask.nx + i
  omega

omit [LinearOrder K] in
theorem zeroBefore_eq_zero (hc : IsCell mask (i, j)) (h : ¬ ∃ k, InDomain mask i j k) (hk : k < mask.nz) :
    layerAt (zeroBefore mask) i j k = 0 := by
  rcases le_or_gt 0 k with h0 | hneg
  · rw [(sameBox_zeroBefore mask).layer_eq i j k hc h0 hk]
    exact not_not.mp fun hne => h ⟨k, ⟨h0, hk⟩, hne⟩
  · refine if_neg (not_le.mpr ?_)
    obtain ⟨⟨hi, hi'⟩, hj, hj'⟩ := hc
    dsimp only at hi hi' hj hj'
    have hlayer : (k + 1) * (mask.ny * mask.nx) ≤ 0 :=
      mul_nonpos_of_nonpos_of_nonneg (by omega) (mul_nonneg (by omega) (by omega))
    have hrow : (j + 1) * mask.nx ≤ mask.ny * mask.nx := mul_le_mul_of_nonneg_right (by omega) (by omega)
    show k * mask.ny * mask.nx + j * mask.nx + i < 0
    linarith

theorem satLaw_iff (nlayers : ℤ) (mask perm trans : Databox K) (hnx : mask.nx = perm.nx) (hny : mask.ny = perm.ny)
    (hnz : mask.nz = perm.nz) (htrans : trans.nx = perm.nx) :
    (∀ mask', SameBox mask mask' → SatLaw nlayers mask' perm trans) ↔
      ∀ i j, IsCell perm (i, j) → ColumnCovered nlayers mask perm i j := by
  have hcell : ∀ i j, IsCell perm (i, j) ↔ IsCell mask (i, j) := fun i j => by
    unfold IsCell
    rw [hnx, hny]
  constructor
  · intro hall
    have hactive : ∀ i j, IsCell perm (i, j) → ∃ k, InDomain mask i j k := by
      intro i j hc
      by_contra hempty
      obtain ⟨trans', -, hlaw⟩ := hall _ (sameBox_zeroBefore mask)
      obtain ⟨ktop, hsearch, -⟩ := (hlaw i j hc).search
      exact findTop_not_returns (fun l hl => zeroBefore_eq_zero ((hcell i j).mp hc) hempty (by omega)) ktop hsearch
    have htopmost : ∀ c : ℤ × ℤ, IsCell perm c → ∃ t, IsTopmost mask c.1 c.2 t := fun c hc =>
      exists_isTopmost (hactive c.1 c.2 hc)
    choose! top htop using htopmost
    obtain ⟨trans', hrun, hlaw⟩ := hall mask ⟨rfl, rfl, rfl, fun _ _ _ _ _ _ => rfl⟩
    obtain ⟨trans'', hrun', hvalue⟩ := computeSatTransmissivity_returns nlayers hnz htrans htop
    obtain rfl := hrun.unique hrun'
    exact fun i j hc => (columnLaw_iff hnz (htop (i, j) hc) (hvalue (i, j) hc)).mp (hlaw i j hc)
  · intro hcovered mask' hsame
    have hcovered' : ∀ c : ℤ × ℤ, IsCell perm c → ColumnCovered nlayers mask' perm c.1 c.2 := fun c hc =>
      hsame.columnCovered ((hcell c.1 c.2).mp hc) (hcovered c.1 c.2 hc)
    choose! top htop _ using hcovered'
    obtain ⟨trans', hrun, hvalue⟩ := computeSatTransmissivity_returns nlayers (hsame.nz_eq.trans hnz) htrans htop
    refine ⟨trans', hrun, fun i j hc => ?_⟩
    exact (columnLaw_iff (hsame.nz_eq.trans hnz) (htop (i, j) hc) (hvalue (i, j) hc)).mpr
      (hsame.columnCovered ((hcell i j).mp hc) (hcovered i j hc))

end

/-! ## A column outside the catchment -/

/-- One column of two inactive cells. -/
def dryColumn : Databox ℚ := ⟨1, 1, 2, 0, 0, 0, 1, 1, 1, fun _ => 0⟩

theorem dryColumn_iff : (∀ mask', SameBox dryColumn mask' → SatLaw 1 mask' dryColumn dryColumn) ↔
    ∀ i j, IsCell dryColumn (i, j) → ColumnCovered 1 dryColumn dryColumn i j :=
  satLaw_iff 1 dryColumn dryColumn dryColumn rfl rfl rfl rfl

/-- With zeros in front of the mask the search never ends. -/
theorem dryColumn_not_satLaw : ¬ SatLaw 1 dryColumn dryColumn dryColumn := by
  rintro ⟨trans', -, hlaw⟩
  obtain ⟨ktop, hsearch, -⟩ := (hlaw 0 0 (by decide)).search
  exact findTop_not_returns (fun _ _ => rfl) ktop hsearch

end ParFlow.Topo
