import ParFlow.Geom.PatchFaces

/-! Both passes of `MakePatchySolid` agree: the faces that the second one writes are those that the first one has counted, apart
from the faces towards negative values, which are counted and not written. -/

namespace ParFlow.PatchySolid

open IntLoop TriangleSurface BucketSlots
open ParFlow.Pfb (Databox)
open ParFlow.Topo (gridLoop mem_gridLoop IsCell coeffAt)

theorem flatMap_ite {α β : Type} (p : α → Prop) [DecidablePred p] (f : α → β) (l : List α) :
    (l.flatMap fun x => if p x then [f x] else []) = (l.filter (p ·)).map f := by
  induction l with
  | nil => rfl
  | cons x l ih =>
    rw [List.flatMap_cons, ih, List.filter_cons]
    by_cases h : p x <;> simp [h]

theorem sum_countP {α : Type} {f : α → ℤ} {n : ℤ} {l : List α} (h : ∀ x ∈ l, 0 ≤ f x ∧ f x < n) :
    ((upto 0 n).map fun k => ((l.countP fun x => f x = k : ℕ) : ℤ)).sum = l.length := by
  induction l with
  | nil => simp
  | cons x l ih =>
    have hbump : (fun k => (((x :: l).countP fun x => f x = k : ℕ) : ℤ)) =
        bump (fun k => ((l.countP fun x => f x = k : ℕ) : ℤ)) (f x) := by
      funext k
      rw [bump_apply, List.countP_cons]
      simp only [decide_eq_true_eq, eq_comm (a := k)]
      push_cast
      rfl
    rw [hbump, sum_bump (upto_nodup _ _) (mem_upto.mpr (h x List.mem_cons_self)),
      ih fun y hy => h y (List.mem_cons_of_mem _ hy), List.length_cons, Nat.cast_add, Nat.cast_one]

theorem load_map {β γ : Type} (f : ℤ × β → ℤ × γ) (hf : ∀ e, (f e).1 = e.1) (l : List (ℤ × β)) (k : ℤ) :
    load (l.map f) k = load l k := by
  unfold load
  rw [List.countP_map]
  simp only [Function.comp_def, hf]

theorem faceIndex_bounds : ∀ side, 0 ≤ faceIndex side ∧ faceIndex side < 6
  | .bottom => by decide
  | .top => by decide
  | .west => by decide
  | .east => by decide
  | .south => by decide
  | .north => by decide

theorem mem_faceOrder (side : Side) : side ∈ faceOrder := by cases side <;> decide

/-! ## The sizes of the patches -/

section

variable {K : Type} [Field K] [LinearOrder K] [FloorRing K] {msk : Databox K} {t : Tally}

/-- The counts of the first pass. -/
abbrev TallyOf (msk : Databox K) (t : Tally) : Prop := Tallied msk (gridLoop msk.nx msk.ny) t

/-- The values next to the columns, other than 1. -/
abbrev neighbours (msk : Databox K) : List ℤ := touchedVals msk (gridLoop msk.nx msk.ny)

namespace Tallied

variable (h : TallyOf msk t)
include h

theorem patchSize_nonneg (i : ℤ) : 0 ≤ patchSize t i := by
  unfold patchSize
  split_ifs
  · exact h.defs_nonneg i
  · exact h.users.nonneg (i - 6)

theorem facesBefore_mono {i j : ℤ} (hi : 0 ≤ i) (hij : i ≤ j) : facesBefore t i ≤ facesBefore t j := by
  unfold facesBefore
  rw [← upto_append hi hij, List.map_append, List.sum_append]
  refine Int.le_add_of_nonneg_right (List.sum_nonneg fun x hx => ?_)
  obtain ⟨k, -, rfl⟩ := List.mem_map.mp hx
  exact h.patchSize_nonneg k

theorem facesBefore_nonneg (i : ℤ) : 0 ≤ facesBefore t i := by
  refine List.sum_nonneg fun x hx => ?_
  obtain ⟨k, -, rfl⟩ := List.mem_map.mp hx
  exact h.patchSize_nonneg k

omit h in
theorem patchStart_eq {i : ℤ} (hsize : 0 < patchSize t i) : patchStart t i = facesBefore t i := by
  unfold patchStart patchInfo
  rw [if_pos hsize]

omit h in
theorem patchStart_of_empty {i : ℤ} (hsize : patchSize t i = 0) : patchStart t i = -1 := by
  unfold patchStart patchInfo
  rw [if_neg (by omega)]

theorem patchStart_ge (i : ℤ) : -1 ≤ patchStart t i := by
  rcases (h.patchSize_nonneg i).lt_or_eq with hpos | hzero
  · rw [patchStart_eq hpos]
    exact le_trans (by decide) (h.facesBefore_nonneg i)
  · rw [patchStart_of_empty hzero.symm]

theorem apart : Apart (patchStart t) (patchSize t) := by
  have hneg : ∀ {i}, i < 0 → patchSize t i = 0 := by
    intro i hi
    rw [patchSize, if_pos (by omega), h.defs, Nat.cast_eq_zero, List.countP_eq_zero]
    intro side _ heq
    have hbounds := faceIndex_bounds side
    rw [of_decide_eq_true heq] at hbounds
    omega
  have hlt : ∀ {i j}, i < j → patchStart t i + patchSize t i ≤ patchStart t j ∨ patchStart t j + patchSize t j ≤ patchStart t i := by
    intro i j hij
    rcases (h.patchSize_nonneg i).lt_or_eq with hi | hi
    · rcases (h.patchSize_nonneg j).lt_or_eq with hj | hj
      · have h0 : 0 ≤ i := not_lt.mp fun hlt => hi.ne' (hneg hlt)
        rw [patchStart_eq hi, patchStart_eq hj, ← facesBefore_succ h0]
        exact Or.inl (h.facesBefore_mono (by omega) hij)
      · rw [patchStart_of_empty hj.symm, ← hj]
        exact Or.inr (h.patchStart_ge i)
    · rw [patchStart_of_empty hi.symm, ← hi]
      exact Or.inl (h.patchStart_ge j)
  intro i j hne
  rcases lt_or_gt_of_ne hne with hij | hij
  · exact hlt hij
  · exact (hlt hij).symm

/-! ## The number of the faces -/

theorem countFaces_eq : countFaces t = (edgeFaces msk (gridLoop msk.nx msk.ny)).length + (neighbours msk).length := by
  unfold countFaces
  rw [h.users.sum, funext h.defs, sum_countP fun side _ => faceIndex_bounds side]

theorem facesBefore_le : facesBefore t (patchTotal t) ≤ countFaces t := by
  have hlow := h.users.low
  have hhigh := h.users.high
  have htotal : facesBefore t (patchTotal t) = ((upto 0 6).map t.defPCounts).sum + ((upto 0 (t.npUsr + 1)).map t.usrPCounts).sum := by
    have hdefault : (upto 0 6).map (patchSize t) = (upto 0 6).map t.defPCounts :=
      List.map_congr_left fun i hi => if_pos (mem_upto.mp hi).2
    have huser : (upto 6 (6 + t.npUsr + 1)).map (patchSize t) = (upto 0 (t.npUsr + 1)).map t.usrPCounts := by
      rw [show upto 6 (6 + t.npUsr + 1) = (upto 0 (t.npUsr + 1)).map (· + 6) by rw [← upto_add]; congr 1; ring, List.map_map]
      refine List.map_congr_left fun i hi => ?_
      have h0 := (mem_upto.mp hi).1
      rw [Function.comp_apply, patchSize, if_neg (by omega), add_sub_cancel_right]
    unfold facesBefore patchTotal
    rw [← upto_append (show (0 : ℤ) ≤ 6 by decide) (show 6 ≤ 6 + t.npUsr + 1 by omega), List.map_append, List.sum_append,
      hdefault, huser]
  rw [htotal]
  unfold countFaces
  rw [← upto_append (show 0 ≤ t.npUsr + 1 by omega) (show t.npUsr + 1 ≤ npTot by omega), List.map_append, List.sum_append]
  refine Int.add_le_add_left (Int.le_add_of_nonneg_right (List.sum_nonneg fun x hx => ?_)) _
  obtain ⟨k, -, rfl⟩ := List.mem_map.mp hx
  exact h.users.nonneg k

theorem slots_within {i : ℤ} (h0 : 0 ≤ i) (hi : i < patchTotal t) (hsize : 0 < patchSize t i) :
    0 ≤ patchStart t i ∧ patchStart t i + patchSize t i ≤ countFaces t := by
  rw [patchStart_eq hsize, ← facesBefore_succ h0]
  exact ⟨h.facesBefore_nonneg i, (h.facesBefore_mono (by omega) hi).trans h.facesBefore_le⟩

end Tallied

/-! ## The faces of the second pass -/

theorem mem_neighbours {v : ℤ} : v ∈ neighbours msk ↔
    (∃ c ∈ columns msk, ∃ side, HasNeighbour msk c side ∧ maskVal msk (c + side.offset) = v) ∧ v ≠ 1 := by
  unfold neighbours touchedVals
  rw [List.mem_filter, List.mem_flatMap]
  simp [neighbourVals, mem_faceOrder, columns]

def edgeEntries (msk : Databox K) : List Entry := (columns msk).flatMap fun c => (faceOrder.filter (AtEdge msk c ·)).map (edgeEntry c)

def userEntries (msk : Databox K) (t : Tally) : List Entry := (columns msk).flatMap fun c =>
  (faceOrder.filter fun side => HasNeighbour msk c side ∧ IsFaced (maskVal msk (c + side.offset))).map (userEntry msk t c)

theorem entries_perm : (entries msk t (columns msk)).Perm (edgeEntries msk ++ userEntries msk t) := by
  have hcell : ∀ c, (cellEntries msk t c).Perm ((faceOrder.filter (AtEdge msk c ·)).map (edgeEntry c) ++
      (faceOrder.filter fun side => HasNeighbour msk c side ∧ IsFaced (maskVal msk (c + side.offset))).map (userEntry msk t c)) := by
    intro c
    rw [← flatMap_ite, ← flatMap_ite]
    exact (List.flatMap_append_perm ..).symm
  exact (List.Perm.flatMap_left _ fun c _ => hcell c).trans (List.flatMap_append_perm ..).symm

theorem edgeEntries_sides : (edgeEntries msk).map (fun e => e.2.2.1) = edgeFaces msk (gridLoop msk.nx msk.ny) := by
  unfold edgeEntries edgeFaces columns
  rw [List.map_flatMap]
  congr 1
  funext c
  rw [List.map_map]
  exact List.map_id _

theorem userEntries_vals : (userEntries msk t).map (fun e => e.2.2.2) = (neighbours msk).filter (IsFaced ·) := by
  have hone : ∀ v, (decide (IsFaced v) && decide (v ≠ 1)) = decide (IsFaced v) := by
    intro v
    rw [← Bool.decide_and, decide_eq_decide]
    exact and_iff_left_of_imp fun h => by omega
  have hcell : ∀ c, ((faceOrder.filter fun side => HasNeighbour msk c side ∧ IsFaced (maskVal msk (c + side.offset))).map
      (userEntry msk t c)).map (fun e => e.2.2.2) = (neighbourVals msk c).filter (IsFaced ·) := by
    intro c
    unfold neighbourVals
    rw [List.map_map, List.filter_map, List.filter_filter]
    congr 1
    refine List.filter_congr fun side _ => ?_
    rw [Bool.decide_and, Bool.and_comm]
    rfl
  unfold userEntries neighbours touchedVals
  rw [List.map_flatMap, List.filter_filter]
  simp only [hone, hcell]
  exact (List.filter_flatMap ..).symm

/-! ## The faces of a patch -/

namespace Tallied

variable (h : TallyOf msk t)
include h

/-- A value next to a column is found as that of a user patch. -/
theorem scan_spec {v : ℤ} (hv : v ∈ neighbours msk) (hfaced : IsFaced v) :
    (6 ≤ scanArray v (patchValue t) (patchTotal t) ∧ scanArray v (patchValue t) (patchTotal t) < patchTotal t) ∧
      t.usrPatches (scanArray v (patchValue t) (patchTotal t) - 6) = v := by
  obtain ⟨u, hu, heq⟩ := (h.users.mem v).mp (Finset.mem_erase.mpr ⟨by omega, List.mem_toFinset.mpr hv⟩)
  have hentry : patchValue t (6 + u) = v := by
    rw [patchValue, if_neg (by have := hu.1; omega), add_sub_cancel_left]
    exact heq
  rcases scanArray_cases v (patchValue t) (patchTotal t) with ⟨-, hnone⟩ | ⟨⟨h0, hlt⟩, hfound⟩
  · exact absurd hentry (hnone (6 + u) (by have := hu.1; omega) (by have := hu.2; unfold patchTotal; omega))
  · have h6 : 6 ≤ scanArray v (patchValue t) (patchTotal t) := by
      by_contra hlt
      rw [patchValue, if_pos (not_le.mp hlt)] at hfound
      unfold defPatches at hfound
      omega
    rw [patchValue, if_neg h6.not_gt] at hfound
    exact ⟨⟨h6, hlt⟩, hfound⟩

theorem found : Found msk t := by
  intro c hc side hn hfaced
  have hspec := h.scan_spec (mem_neighbours.mpr ⟨⟨c, hc, side, hn, rfl⟩, by omega⟩) hfaced
  omega

omit h in
theorem mem_edgeEntries {e : Entry} (he : e ∈ edgeEntries msk) : e.1 = faceIndex e.2.2.1 := by
  obtain ⟨c, -, he⟩ := List.mem_flatMap.mp he
  obtain ⟨side, -, rfl⟩ := List.mem_map.mp he
  rfl

theorem mem_userEntries {e : Entry} (he : e ∈ userEntries msk t) :
    (6 ≤ e.1 ∧ e.1 < patchTotal t) ∧ t.usrPatches (e.1 - 6) = e.2.2.2 := by
  have hv : e.2.2.2 ∈ (neighbours msk).filter (IsFaced ·) := by
    rw [← userEntries_vals (t := t)]
    exact List.mem_map_of_mem he
  obtain ⟨hmem, hfaced⟩ := List.mem_filter.mp hv
  obtain ⟨c, -, he⟩ := List.mem_flatMap.mp he
  obtain ⟨side, -, rfl⟩ := List.mem_map.mp he
  exact h.scan_spec hmem (of_decide_eq_true hfaced)

/-- No patch gets more faces than it has slots. -/
theorem load_entries_le (k : ℤ) (hk : k < patchTotal t) : (load (entries msk t (columns msk)) k : ℤ) ≤ patchSize t k := by
  have hsplit : load (entries msk t (columns msk)) k = load (edgeEntries msk) k + load (userEntries msk t) k := by
    unfold load
    rw [(entries_perm).countP_eq, List.countP_append]
  have hedge : (load (edgeEntries msk) k : ℤ) = t.defPCounts k := by
    rw [h.defs, ← edgeEntries_sides, List.countP_map]
    unfold load
    congr 1
    refine List.countP_congr fun e he => ?_
    rw [mem_edgeEntries he]
    rfl
  rw [hsplit, Nat.cast_add, hedge]
  unfold patchSize
  split_ifs with h6
  · have huser : load (userEntries msk t) k = 0 := List.countP_eq_zero.mpr fun e he heq => by
      have hkey := (h.mem_userEntries he).1.1
      rw [of_decide_eq_true heq] at hkey
      omega
    rw [huser, Nat.cast_zero, add_zero]
  · have hnone : t.defPCounts k = 0 := by
      rw [h.defs, Nat.cast_eq_zero, List.countP_eq_zero]
      intro side _ heq
      have hbounds := (faceIndex_bounds side).2
      rw [of_decide_eq_true heq] at hbounds
      exact h6 hbounds
    have hle : load (userEntries msk t) k ≤ (neighbours msk).count (t.usrPatches (k - 6)) := by
      calc load (userEntries msk t) k
          ≤ (userEntries msk t).countP ((· == t.usrPatches (k - 6)) ∘ fun e => e.2.2.2) := by
            refine List.countP_mono_left fun e he heq => ?_
            have hval := (h.mem_userEntries he).2
            rw [of_decide_eq_true heq] at hval
            exact beq_iff_eq.mpr hval.symm
        _ = ((neighbours msk).filter (IsFaced ·)).count (t.usrPatches (k - 6)) := by
            rw [← List.countP_map, userEntries_vals]
            rfl
        _ ≤ (neighbours msk).count (t.usrPatches (k - 6)) := List.filter_sublist.count_le _
    have hsize := h.users.le (k - 6) ⟨by omega, by unfold patchTotal at hk; omega⟩
    rw [hnone, zero_add]
    exact (Int.ofNat_le.mpr hle).trans hsize

theorem mem_entries_key {e : Entry} (he : e ∈ entries msk t (columns msk)) : 0 ≤ e.1 ∧ e.1 < patchTotal t := by
  have hlow := h.users.low
  rcases List.mem_append.mp (entries_perm.mem_iff.mp he) with hmem | hmem
  · have hbounds := faceIndex_bounds e.2.2.1
    rw [mem_edgeEntries hmem]
    unfold patchTotal
    omega
  · have hkey := (h.mem_userEntries hmem).1
    omega

theorem hasSlots (ourPnts : ℤ × ℤ → Fin 8 → ℤ) :
    HasSlots t (countFaces t) ((entries msk t (columns msk)).map (recordOf ourPnts)) := by
  have hload : ∀ k, load ((entries msk t (columns msk)).map (recordOf ourPnts)) k = load (entries msk t (columns msk)) k :=
    load_map (recordOf ourPnts) (fun _ => rfl) _
  have hkey : ∀ w ∈ (entries msk t (columns msk)).map (recordOf ourPnts), 0 ≤ w.1 ∧ w.1 < patchTotal t := by
    intro w hw
    obtain ⟨e, he, rfl⟩ := List.mem_map.mp hw
    exact h.mem_entries_key he
  have hle : ∀ w ∈ (entries msk t (columns msk)).map (recordOf ourPnts),
      (load ((entries msk t (columns msk)).map (recordOf ourPnts)) w.1 : ℤ) ≤ patchSize t w.1 := by
    intro w hw
    rw [hload]
    exact h.load_entries_le w.1 (hkey w hw).2
  refine ⟨hkey, fun w hw => ?_, hle⟩
  have hpos : 0 < load ((entries msk t (columns msk)).map (recordOf ourPnts)) w.1 := load_pos hw
  have hsize := hle w hw
  exact h.slots_within (hkey w hw).1 (hkey w hw).2 (by omega)

omit h in
theorem length_entries : ((entries msk t (columns msk)).length : ℤ) =
    (edgeFaces msk (gridLoop msk.nx msk.ny)).length + ((neighbours msk).filter (IsFaced ·)).length := by
  rw [entries_perm.length_eq, List.length_append, ← edgeEntries_sides, ← userEntries_vals (t := t), List.length_map, List.length_map,
    Nat.cast_add]

/-- There are as many faces as slots unless a column lies next to a negative value. -/
theorem length_entries_eq_iff : ((entries msk t (columns msk)).length : ℤ) = countFaces t ↔ ∀ v ∈ neighbours msk, 0 ≤ v := by
  rw [length_entries, h.countFaces_eq, add_right_inj, Nat.cast_inj, List.length_filter_eq_length_iff]
  refine forall₂_congr fun v hv => ?_
  have hne := (mem_neighbours.mp hv).2
  rw [decide_eq_true_eq]
  omega

end Tallied

end

end ParFlow.PatchySolid
