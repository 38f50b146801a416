import ParFlow.Geom.PatchSurface

/-! The file of `MakePatchySolid`: its numbers belong together unless a column lies next to a negative value, or the zeros of the
mask lie apart from all columns. -/

namespace ParFlow.PatchySolid

open IntLoop ExceptLoop TriangleSurface BucketSlots
open ParFlow.Pfb (Databox)
open ParFlow.Topo (gridLoop mem_gridLoop IsCell coeffAt)

def IsVertex {K : Type} (f : SolidFile K) (n : ℤ) : Prop := 0 ≤ n ∧ n < f.vertexCount

/-- The counts are those of what follows, and triangles and vertices are called by their numbers. -/
structure WellFormed {K : Type} (f : SolidFile K) : Prop where
  vertices : f.vertexCount = f.vertices.length
  triangles : f.triangleCount = f.triangles.length
  patches : f.patchCount = f.patches.length
  lists : ∀ p ∈ f.patches, p.1 = p.2.length
  numbers : ∀ p ∈ f.patches, ∀ n ∈ p.2, 0 ≤ n ∧ n < f.triangleCount
  corners : ∀ t ∈ f.triangles, IsVertex f t.1 ∧ IsVertex f t.2.1 ∧ IsVertex f t.2.2

theorem length_flatMap_two {α β : Type} {f : α → List β} (hf : ∀ x, (f x).length = 2) (l : List α) :
    (l.flatMap f).length = l.length * 2 := by
  rw [List.length_flatMap, List.map_congr_left fun x _ => hf x, List.map_const', List.sum_replicate, smul_eq_mul]

theorem length_filter_flatMap {α β : Type} (p : α → Bool) (f : α → List β) (l : List α) :
    (((l.filter p).flatMap f).length : ℤ) = (l.map fun x => if p x then ((f x).length : ℤ) else 0).sum := by
  induction l with
  | nil => rfl
  | cons x l ih =>
    rw [List.filter_cons, List.map_cons, List.sum_cons, ← ih]
    split_ifs
    · rw [List.flatMap_cons, List.length_append, Nat.cast_add]
    · rw [zero_add]

section

variable {K : Type} [Field K] [LinearOrder K] [FloorRing K] {checked : Bool} {msk top bot : Databox K}
  {ourPnts : ℤ × ℤ → Fin 8 → ℤ} {s : Solid K} {t : Tally}

/-! ## The entries of the patches -/

theorem patchInfo_value (t : Tally) (i : ℤ) : (patchInfo t i).value = patchValue t i := by
  unfold patchInfo
  split_ifs <;> rfl

theorem patchInfo_endIdx {i : ℤ} (hsize : 0 < patchSize t i) :
    (patchInfo t i).endIdx + 1 = patchStart t i + patchSize t i := by
  unfold patchStart patchInfo
  rw [if_pos hsize]
  exact sub_add_cancel _ _

theorem Tallied.patchInfo_count (h : TallyOf msk t) (i : ℤ) : (patchInfo t i).patchCellCount = patchSize t i := by
  unfold patchInfo
  split_ifs with hsize
  · rfl
  · exact le_antisymm (h.patchSize_nonneg i) (not_lt.mp hsize)

theorem Built.patchInfos_eq (h : Built checked msk top bot ourPnts s) :
    s.patchInfos = (upto 0 (patchTotal s.tally)).map (writtenInfo s.tally (records s.tally msk ourPnts)) := by
  unfold Solid.patchInfos
  refine List.map_congr_left fun i hi => ?_
  obtain ⟨h0, h1⟩ := mem_upto.mp hi
  exact h.passed.written.patches i h0 h1

/-- The faces of a patch with one direction are found in its slots. -/
theorem Built.length_subPatch (h : Built checked msk top bot ourPnts s) {i k : ℤ} (hi : i < patchTotal s.tally)
    (hk : 0 ≤ k) : (((upto (patchStart s.tally i) (patchStart s.tally i + patchSize s.tally i)).filter fun j =>
      (s.patch j).face = k).length : ℤ) = faceLoad (records s.tally msk ourPnts) i k := by
  have hslots := h.tally.hasSlots ourPnts
  have hload : (load (records s.tally msk ourPnts) i : ℤ) ≤ patchSize s.tally i := by
    rw [records, load_map (recordOf ourPnts) fun _ => rfl]
    exact h.tally.load_entries_le i hi
  have hblank : decide (FaceRecord.blank.face = k) = false := decide_eq_false (by show (-1111 : ℤ) ≠ k; omega)
  rw [patch_eq_table, h.passed.written.writes, ← List.countP_eq_length_filter]
  refine (congrArg Nat.cast (bucket_countP (p := fun r => decide (r.face = k)) h.tally.apart hslots.load hload hblank)).trans ?_
  unfold faceLoad records
  rw [Nat.cast_inj]
  refine List.countP_congr fun w _ => ?_
  simp [and_comm]

/-! ## Triangles and vertices -/

omit [Field K] [LinearOrder K] [FloorRing K] in
theorem length_triangles (hfaces : 0 ≤ s.cellFaces) : ((s.triangles).length : ℤ) = s.cellFaces * 2 := by
  unfold Solid.triangles
  rw [length_flatMap_two fun _ => rfl, length_upto]
  push_cast
  omega

theorem Built.cellFaces_nonneg (h : Built checked msk top bot ourPnts s) : 0 ≤ s.cellFaces := by
  rw [h.cellFaces, h.tally.countFaces_eq]
  positivity

/-- Without negative values next to the columns the triangles have vertices. -/
theorem Built.corners_of_nonneg (h : Built checked msk top bot ourPnts s) (hnonneg : ∀ v ∈ neighbours msk, 0 ≤ v)
    {f : SolidFile K} (hcount : f.vertexCount = s.build.points.length) {tri : ℤ × ℤ × ℤ} (htri : tri ∈ s.triangles) :
    IsVertex f tri.1 ∧ IsVertex f tri.2.1 ∧ IsVertex f tri.2.2 := by
  rw [triangles_eq] at htri
  obtain ⟨r, hr, htri⟩ := List.mem_flatMap.mp htri
  obtain ⟨w, hw, rfl⟩ := List.mem_map.mp ((h.slots hnonneg).2.mem_iff.mp hr)
  obtain ⟨e, he, rfl⟩ := List.mem_map.mp hw
  have hc : e.2.1 ∈ columns msk := by
    obtain ⟨c, hc, he⟩ := List.mem_flatMap.mp he
    rwa [mem_cellEntries_cell he]
  have hvertex : ∀ km, IsVertex f (ourPnts e.2.1 km) := fun km => by
    have hnames := h.passed.names e.2.1 hc km
    have hlt := hnames.lt
    rw [h.passed.points.length_eq, ← hcount] at hlt
    exact ⟨hnames.nonneg, hlt⟩
  rcases List.mem_cons.mp htri with rfl | htri
  · exact ⟨hvertex _, hvertex _, hvertex _⟩
  · rw [List.mem_singleton.mp htri]
    exact ⟨hvertex _, hvertex _, hvertex _⟩

/-- A face towards a negative value leaves a slot blank. -/
theorem Built.nonneg_of_corners (h : Built checked msk top bot ourPnts s) (hcorners : ∀ tri ∈ s.triangles, 0 ≤ tri.1) :
    ∀ v ∈ neighbours msk, 0 ≤ v := by
  rw [← h.tally.length_entries_eq_iff]
  have hlen : (s.build.writes.map Prod.fst).length = (entries msk s.tally (columns msk)).length := by
    rw [h.passed.written.writes, List.length_map, place_length, List.length_map]
  have hall : ∀ i ∈ upto 0 s.cellFaces, i ∈ s.build.writes.map Prod.fst := by
    intro i hi
    by_contra hnot
    have hblank : s.patch i = FaceRecord.blank := table_of_notMem hnot
    have hneg := hcorners (s.patch i).first (List.mem_flatMap.mpr ⟨i, hi, List.mem_cons_self⟩)
    rw [hblank] at hneg
    exact absurd hneg (by decide)
  have hle := (List.subperm_of_subset (upto_nodup 0 s.cellFaces) hall).length_le
  have hfew : ((entries msk s.tally (columns msk)).length : ℤ) ≤ countFaces s.tally := by
    rw [Tallied.length_entries, h.tally.countFaces_eq]
    exact Int.add_le_add_left (Int.ofNat_le.mpr (List.length_filter_le _ _)) _
  rw [length_upto, hlen, h.cellFaces] at hle
  omega

/-! ## The patches -/

/-- What is listed for a patch. -/
theorem Built.patches_lists (h : Built checked msk top bot ourPnts s) (subPatches : ℤ) :
    ∀ p ∈ s.patches subPatches, p.1 = p.2.length ∧ ∀ n ∈ p.2, 0 ≤ n ∧ n < s.cellFaces * 2 := by
  intro p hp
  unfold Solid.patches at hp
  rw [h.patchInfos_eq] at hp
  obtain ⟨info, hinfo, hp⟩ := List.mem_flatMap.mp hp
  obtain ⟨hmem, hcond⟩ := List.mem_filter.mp hinfo
  obtain ⟨i, hi, rfl⟩ := List.mem_map.mp hmem
  obtain ⟨h0, hi⟩ := mem_upto.mp hi
  have hcount : (writtenInfo s.tally (records s.tally msk ourPnts) i).patchCellCount = patchSize s.tally i :=
    h.tally.patchInfo_count i
  have hsize : 0 < patchSize s.tally i := hcount ▸ (of_decide_eq_true hcond).1
  have hend : (writtenInfo s.tally (records s.tally msk ourPnts) i).endIdx + 1 = patchStart s.tally i + patchSize s.tally i :=
    patchInfo_endIdx hsize
  have hstart : (writtenInfo s.tally (records s.tally msk ourPnts) i).startIdx = patchStart s.tally i := rfl
  obtain ⟨hlo, hhi⟩ := h.tally.slots_within h0 hi hsize
  rw [← h.cellFaces] at hhi
  split_ifs at hp
  · obtain ⟨k, hk, rfl⟩ := List.mem_map.mp hp
    have hk0 := (mem_upto.mp (List.mem_filter.mp hk).1).1
    constructor
    · show faceLoad (records s.tally msk ourPnts) i k * 2 = _
      unfold Solid.subPatch
      rw [hend, hstart, length_flatMap_two fun _ => rfl, Nat.cast_mul, ← h.length_subPatch hi hk0]
      rfl
    · intro n hn
      unfold Solid.subPatch at hn
      rw [hend, hstart] at hn
      obtain ⟨j, hj, hn⟩ := List.mem_flatMap.mp hn
      obtain ⟨hj0, hj1⟩ := mem_upto.mp (List.mem_filter.mp hj).1
      rcases List.mem_cons.mp hn with rfl | hn
      · omega
      · rw [List.mem_singleton.mp hn]
        omega
  · rw [List.mem_singleton.mp hp]
    unfold Solid.wholePatch
    rw [hcount, hstart]
    constructor
    · rw [length_upto]
      omega
    · intro n hn
      obtain ⟨hn0, hn1⟩ := mem_upto.mp hn
      omega

/-- With sub-patches the number of the patches is that of their records. -/
theorem Built.patchCount_sub (h : Built checked msk top bot ourPnts s) : s.patchCount 1 = (s.patches 1).length := by
  unfold Solid.patchCount Solid.patches
  rw [if_pos rfl, length_filter_flatMap, h.patchInfos_eq, List.map_map, List.map_map]
  congr 1
  refine List.map_congr_left fun i hi => ?_
  have hcount : (writtenInfo s.tally (records s.tally msk ourPnts) i).patchCellCount = patchSize s.tally i :=
    h.tally.patchInfo_count i
  rw [Function.comp_apply, Function.comp_apply, if_pos rfl, List.length_map]
  split_ifs with hcond
  · have hvalue := (of_decide_eq_true hcond).2
    rw [Nat.cast_inj]
    congr 1
    refine List.filter_congr fun k _ => decide_eq_decide.mpr (and_iff_right hvalue)
  · rw [Nat.cast_eq_zero, List.length_eq_zero_iff, List.filter_eq_nil_iff]
    intro k _ hk
    obtain ⟨hvalue, hact⟩ := of_decide_eq_true hk
    refine hcond (decide_eq_true ⟨?_, hvalue⟩)
    -- a patch with a face has slots
    have hpos : 0 < (records s.tally msk ourPnts).countP fun w => w.1 = i ∧ w.2.face = k := Int.natCast_pos.mp hact
    obtain ⟨w, hw, hkey⟩ := List.countP_pos_iff.mp hpos
    have hload := (h.tally.hasSlots ourPnts).load w hw
    have hload0 := load_pos hw
    rw [hcount, ← (of_decide_eq_true hkey).1]
    exact (Int.natCast_pos.mpr hload0).trans_le hload

/-- The patch of the zeros is not listed. -/
theorem Tallied.countP_zero (h : TallyOf msk t) : (upto 0 (patchTotal t)).countP (fun i => patchSize t i > 0 ∧ patchValue t i = 0) =
    if 0 ∈ neighbours msk then 1 else 0 := by
  have hlow := h.users.low
  have hvalue : ∀ i, 0 ≤ i → patchValue t i = 0 → 6 ≤ i ∧ t.usrPatches (i - 6) = 0 := by
    intro i h0 hi
    unfold patchValue at hi
    split_ifs at hi with h6
    · unfold defPatches at hi
      omega
    · exact ⟨not_lt.mp h6, hi⟩
  have hregistered : 0 ∈ neighbours msk ↔ ∃ u, IsUser t.npUsr u ∧ t.usrPatches u = 0 := by
    rw [← h.users.mem, registered, Finset.mem_erase, List.mem_toFinset]
    exact (and_iff_right (by decide)).symm
  split_ifs with hzero
  · obtain ⟨u, hu, hval⟩ := hregistered.mp hzero
    have honly : ∀ i ∈ upto 0 (patchTotal t), decide (patchSize t i > 0 ∧ patchValue t i = 0) = (i == 6 + u) := by
      intro i hi
      obtain ⟨h0, h1⟩ := mem_upto.mp hi
      rw [Bool.eq_iff_iff, decide_eq_true_eq, beq_iff_eq]
      constructor
      · rintro ⟨-, hi⟩
        obtain ⟨h6, hi⟩ := hvalue i h0 hi
        have heq := h.users.inj (i - 6) u ⟨by omega, by unfold patchTotal at h1; omega⟩ hu (hi.trans hval.symm)
        omega
      · rintro rfl
        have hnot : ¬ 6 + u < 6 := by have := hu.1; omega
        unfold patchSize patchValue
        rw [if_neg hnot, if_neg hnot, add_sub_cancel_left]
        exact ⟨h.users.count_pos hu, hval⟩
    rw [List.countP_congr fun i hi => by rw [honly i hi]]
    have hmem : 6 + u ∈ upto 0 (patchTotal t) := mem_upto.mpr ⟨by have := hu.1; omega, by have := hu.2; unfold patchTotal; omega⟩
    exact List.count_eq_one_of_mem (upto_nodup _ _) hmem
  · refine List.countP_eq_zero.mpr fun i hi hcond => ?_
    obtain ⟨h0, h1⟩ := mem_upto.mp hi
    obtain ⟨h6, hval⟩ := hvalue i h0 (of_decide_eq_true hcond).2
    exact hzero (hregistered.mpr ⟨i - 6, ⟨by omega, by unfold patchTotal at h1; omega⟩, hval⟩)

theorem Built.length_patches (h : Built checked msk top bot ourPnts s) {subPatches : ℤ} (hsub : subPatches ≠ 1) :
    ((s.patches subPatches).length : ℤ) = s.nonBlanks - if 0 ∈ neighbours msk then 1 else 0 := by
  have hcount : ∀ i, (writtenInfo s.tally (records s.tally msk ourPnts) i).patchCellCount = patchSize s.tally i :=
    h.tally.patchInfo_count
  have hvalue : ∀ i, (writtenInfo s.tally (records s.tally msk ourPnts) i).value = patchValue s.tally i := patchInfo_value s.tally
  have hlen : (s.patches subPatches).length =
      (upto 0 (patchTotal s.tally)).countP fun i => patchSize s.tally i > 0 ∧ patchValue s.tally i ≠ 0 := by
    unfold Solid.patches
    simp only [if_neg hsub]
    rw [← List.map_eq_flatMap, List.length_map, ← List.countP_eq_length_filter, h.patchInfos_eq, List.countP_map]
    simp only [Function.comp_def, hcount, hvalue]
  have hsplit : ∀ l : List ℤ, l.countP (fun i => patchSize s.tally i > 0) =
      l.countP (fun i => patchSize s.tally i > 0 ∧ patchValue s.tally i ≠ 0) +
        l.countP (fun i => patchSize s.tally i > 0 ∧ patchValue s.tally i = 0) := by
    intro l
    induction l with
    | nil => rfl
    | cons i l ih =>
      simp only [List.countP_cons, ih, decide_eq_true_eq]
      by_cases h1 : patchSize s.tally i > 0 <;> by_cases h2 : patchValue s.tally i = 0 <;> simp [h1, h2] <;> omega
  rw [h.nonBlanks, hsplit, h.tally.countP_zero, hlen]
  push_cast
  ring

/-- Without sub-patches it is if the zeros of the mask, when there are any, lie next to a column. -/
theorem Built.patchCount_iff (h : Built checked msk top bot ourPnts s) {subPatches : ℤ} (hsub : subPatches ≠ 1) :
    s.patchCount subPatches = (s.patches subPatches).length ↔
      ((∃ c, IsCell msk c ∧ maskVal msk c = 0) → 0 ∈ neighbours msk) := by
  have hgrid : (∃ c ∈ gridLoop msk.nx msk.ny, maskVal msk c = 0) ↔ ∃ c, IsCell msk c ∧ maskVal msk c = 0 := by
    simp only [mem_gridLoop]
  have hconverse : 0 ∈ neighbours msk → ∃ c, IsCell msk c ∧ maskVal msk c = 0 := neighbours_cell
  unfold Solid.patchCount
  rw [if_neg hsub, h.length_patches hsub, h.tally.zeros]
  by_cases hzero : ∃ c, IsCell msk c ∧ maskVal msk c = 0
  · rw [if_pos (hgrid.mpr hzero), if_pos rfl, imp_iff_right hzero]
    split_ifs with hmem
    · exact iff_of_true rfl hmem
    · exact iff_of_false (by omega) hmem
  · rw [if_neg fun h => hzero (hgrid.mp h), if_neg (by decide), if_neg fun hmem => hzero (hconverse hmem), sub_zero]
    exact iff_of_true rfl fun hyes => absurd hyes hzero

/-! ## The file -/

theorem Built.wellFormed_iff (h : Built checked msk top bot ourPnts s) (subPatches binOut : ℤ) :
    WellFormed (writeSolid s subPatches binOut) ↔ (∀ v ∈ neighbours msk, 0 ≤ v) ∧
      (subPatches = 1 ∨ ((∃ c, IsCell msk c ∧ maskVal msk c = 0) → 0 ∈ neighbours msk)) := by
  constructor
  · intro hwell
    refine ⟨h.nonneg_of_corners fun tri htri => (hwell.corners tri htri).1.1, ?_⟩
    by_cases hsub : subPatches = 1
    · exact Or.inl hsub
    · exact Or.inr ((h.patchCount_iff hsub).mp hwell.patches)
  · rintro ⟨hnonneg, hzeros⟩
    have hlists := h.patches_lists subPatches
    refine ⟨rfl, (length_triangles h.cellFaces_nonneg).symm, ?_, fun p hp => (hlists p hp).1, fun p hp => (hlists p hp).2,
      fun tri htri => h.corners_of_nonneg hnonneg rfl htri⟩
    by_cases hsub : subPatches = 1
    · subst hsub
      exact h.patchCount_sub
    · exact (h.patchCount_iff hsub).mpr (hzeros.resolve_left hsub)

variable [IsStrictOrderedRing K]

end

/-! ## Three cells -/

/-- An active cell, a cell of a patch, and a zero that is not next to the active one. -/
def lineMask : Databox ℚ := ⟨3, 1, 1, 0, 0, 0, 1, 1, 1, fun p => if p = 0 then 1 else if p = 1 then 2 else 0⟩

theorem lineMask_integral : IsIntegral lineMask := by
  intro c _
  show ∃ n : ℤ, (if lineMask.coeff c.1 c.2 0 = 0 then 1 else if lineMask.coeff c.1 c.2 0 = 1 then 2 else 0 : ℚ) = n
  split_ifs
  · exact ⟨1, by norm_num⟩
  · exact ⟨2, by norm_num⟩
  · exact ⟨0, by norm_num⟩

end ParFlow.PatchySolid
