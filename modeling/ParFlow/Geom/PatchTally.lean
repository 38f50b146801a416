import ParFlow.Geom.PatchySolidDefs
import ParFlow.Lib.ExceptLoop
import ParFlow.Topo.GridCells

/-! The first pass of `MakePatchySolid`: which values are registered as patches, how many faces each of them gets, and when
there are too many of them. -/

namespace ParFlow.PatchySolid

open IntLoop ExceptLoop TriangleSurface
open ParFlow.Pfb (Databox)
open ParFlow.Topo (gridLoop)

/-! ## Scans and counts -/

theorem scanArray_cases (val : ℤ) (a : ℤ → ℤ) (len : ℤ) :
    (scanArray val a len = -1 ∧ ∀ i, 0 ≤ i → i < len → a i ≠ val) ∨
      ((0 ≤ scanArray val a len ∧ scanArray val a len < len) ∧ a (scanArray val a len) = val) := by
  unfold scanArray
  cases h : (upto 0 len).find? fun i => a i = val with
  | none =>
    refine Or.inl ⟨rfl, fun i h0 hi => ?_⟩
    simpa using List.find?_eq_none.mp h i (mem_upto.mpr ⟨h0, hi⟩)
  | some i => exact Or.inr ⟨mem_upto.mp (List.mem_of_find?_eq_some h), by simpa using List.find?_some h⟩

theorem bump_apply (counts : ℤ → ℤ) (k i : ℤ) : bump counts k i = counts i + if i = k then 1 else 0 := by
  unfold bump
  rw [Function.update_apply]
  split_ifs with h
  · rw [h]
  · exact (add_zero _).symm

theorem sum_bump {l : List ℤ} (hl : l.Nodup) {k : ℤ} (hk : k ∈ l) (counts : ℤ → ℤ) :
    (l.map (bump counts k)).sum = (l.map counts).sum + 1 := by
  simp only [funext (bump_apply counts k), List.sum_map_add]
  rw [← List.sum_toFinset _ hl, ← List.sum_toFinset _ hl, Finset.sum_ite_eq', if_pos (List.mem_toFinset.mpr hk)]

theorem foldl_bump {ι : Type} (f : ι → ℤ) (l : List ι) (counts : ℤ → ℤ) (k : ℤ) :
    l.foldl (fun counts x => bump counts (f x)) counts k = counts k + l.countP fun x => f x = k := by
  induction l generalizing counts with
  | nil => simp
  | cons x l ih =>
    rw [List.foldl_cons, ih, bump_apply, List.countP_cons]
    simp only [decide_eq_true_eq, eq_comm (a := k)]
    push_cast
    ring

/-! ## The registered values -/

/-- The values that are registered. The mark of a free entry is not among them: its faces are counted at a free entry. -/
def registered (l : List ℤ) : Finset ℤ := l.toFinset.erase (-99999)

/-- There is no entry for another value. -/
def Full (l : List ℤ) (v : ℤ) : Prop := npTot ≤ (registered l).card ∧ v ∉ registered l

def TooMany (l : List ℤ) : Prop := ∃ pre v post, l = pre ++ v :: post ∧ Full pre v

/-- The indices in use; `np_usr` is the last one. -/
def IsUser (npUsr u : ℤ) : Prop := 0 ≤ u ∧ u ≤ npUsr

/-- The arrays of the user patches after the neighbours `l`. -/
structure Registers (l : List ℤ) (npUsr : ℤ) (patches counts : ℤ → ℤ) : Prop where
  low : -1 ≤ npUsr
  high : npUsr < npTot
  inj : ∀ u v, IsUser npUsr u → IsUser npUsr v → patches u = patches v → u = v
  mem : ∀ v, v ∈ registered l ↔ ∃ u, IsUser npUsr u ∧ patches u = v
  blank : ∀ u, npUsr < u → u < npTot → patches u = -99999
  le : ∀ u, IsUser npUsr u → (l.count (patches u) : ℤ) ≤ counts u
  nonneg : ∀ u, 0 ≤ counts u
  sum : ((upto 0 npTot).map counts).sum = l.length
  fits : ¬ TooMany l

theorem TooMany.append {l : List ℤ} (h : TooMany l) (l' : List ℤ) : TooMany (l ++ l') := by
  obtain ⟨pre, v, post, rfl, hfull⟩ := h
  exact ⟨pre, v, post ++ l', by rw [List.append_assoc, List.cons_append], hfull⟩

theorem tooMany_concat {l : List ℤ} {v : ℤ} (h : TooMany (l ++ [v])) : TooMany l ∨ Full l v := by
  obtain ⟨pre, w, post, heq, hfull⟩ := h
  rcases post.eq_nil_or_concat with rfl | ⟨post, x, rfl⟩
  · obtain ⟨rfl, hw⟩ := List.append_inj' heq rfl
    obtain rfl := List.singleton_inj.mp hw
    exact Or.inr hfull
  · rw [List.concat_eq_append, ← List.cons_append, ← List.append_assoc] at heq
    exact Or.inl ⟨pre, w, post, (List.append_inj' heq rfl).1, hfull⟩

theorem registered_concat {l : List ℤ} {v : ℤ} : registered (l ++ [v]) = if v = -99999 then registered l else insert v (registered l) := by
  unfold registered
  ext w
  split_ifs with h
  · subst h
    simp only [List.toFinset_append, Finset.mem_erase, Finset.mem_union, List.mem_toFinset, List.mem_singleton]
    tauto
  · simp only [List.toFinset_append, Finset.mem_erase, Finset.mem_union, List.mem_toFinset, List.mem_singleton, Finset.mem_insert]
    constructor
    · tauto
    · rintro (rfl | h')
      · exact ⟨h, Or.inr rfl⟩
      · exact ⟨h'.1, Or.inl h'.2⟩

namespace Registers

variable {l : List ℤ} {npUsr u v : ℤ} {patches counts : ℤ → ℤ}

theorem start : Registers [] (-1) (fun _ => -99999) fun _ => 0 where
  low := le_rfl
  high := by decide
  inj u _ hu := absurd (hu.1.trans hu.2) (by decide)
  mem v := ⟨fun h => absurd h (Finset.notMem_empty v), fun ⟨u, hu, _⟩ => absurd (hu.1.trans hu.2) (by decide)⟩
  blank _ _ _ := rfl
  le u hu := absurd (hu.1.trans hu.2) (by decide)
  nonneg _ := le_rfl
  sum := by decide
  fits := fun ⟨pre, v, post, h, _⟩ => by simp at h

section

variable (h : Registers l npUsr patches counts)
include h

theorem ne_blank (hu : IsUser npUsr u) : patches u ≠ -99999 := fun heq =>
  Finset.notMem_erase _ _ (heq ▸ (h.mem _).mpr ⟨u, hu, rfl⟩)

/-- An entry with another value is in use. -/
theorem isUser (hu : 0 ≤ u ∧ u < npTot) (hne : patches u ≠ -99999) : IsUser npUsr u :=
  ⟨hu.1, not_lt.mp fun hlt => hne (h.blank u hlt hu.2)⟩

theorem card_registered : ((registered l).card : ℤ) = npUsr + 1 := by
  have himage : registered l = (upto 0 (npUsr + 1)).toFinset.image patches := by
    ext v
    simp only [h.mem, Finset.mem_image, List.mem_toFinset, mem_upto, Int.lt_add_one_iff]
    rfl
  rw [himage, Finset.card_image_of_injOn, List.toFinset_card_of_nodup (upto_nodup _ _), length_upto]
  · have hlow := h.low
    omega
  · intro u hu v hv heq
    rw [Finset.mem_coe, List.mem_toFinset, mem_upto, Int.lt_add_one_iff] at hu hv
    exact h.inj u v hu hv heq

/-- Every user patch has a face. -/
theorem count_pos (hu : IsUser npUsr u) : 0 < counts u := by
  have hmem : patches u ∈ registered l := (h.mem _).mpr ⟨u, hu, rfl⟩
  have hcount := List.count_pos_iff.mpr (List.mem_toFinset.mp (Finset.mem_of_mem_erase hmem))
  have hle := h.le u hu
  omega

theorem full_iff : Full l v ↔ npUsr + 1 = npTot ∧ ∀ u, IsUser npUsr u → patches u ≠ v := by
  have hhigh := h.high
  unfold Full
  rw [h.card_registered, h.mem, not_exists]
  exact and_congr ⟨fun hle => by omega, fun heq => heq.ge⟩ (forall_congr' fun u => not_and)

/-- A value that is found. -/
theorem count {idx : ℤ} (hidx : 0 ≤ idx ∧ idx < npTot) (hv : patches idx = v) :
    Registers (l ++ [v]) npUsr patches (bump counts idx) where
  low := h.low
  high := h.high
  inj := h.inj
  blank := h.blank
  mem w := by
    rw [registered_concat]
    split_ifs with hblank
    · exact h.mem w
    · rw [Finset.insert_eq_self.mpr ((h.mem v).mpr ⟨idx, h.isUser hidx (hv ▸ hblank), hv⟩)]
      exact h.mem w
  le u hu := by
    have hle := h.le u hu
    rw [List.count_append, List.count_singleton, bump_apply]
    by_cases hvu : v = patches u
    · have huser : IsUser npUsr idx := h.isUser hidx (by rw [hv, hvu]; exact h.ne_blank hu)
      rw [if_pos (beq_iff_eq.mpr hvu), if_pos (h.inj u idx hu huser (hvu.symm.trans hv.symm))]
      push_cast
      exact Int.add_le_add_right hle 1
    · rw [if_neg (by simpa using hvu)]
      split_ifs <;> omega
  nonneg u := by
    have hnonneg := h.nonneg u
    rw [bump_apply]
    split_ifs <;> omega
  sum := by
    rw [sum_bump (upto_nodup _ _) (mem_upto.mpr hidx), h.sum, List.length_append, List.length_singleton, Nat.cast_add,
      Nat.cast_one]
  fits hmany := by
    rcases tooMany_concat hmany with hold | hfull
    · exact h.fits hold
    · obtain ⟨hnp, hne⟩ := h.full_iff.mp hfull
      exact hne idx ⟨hidx.1, by omega⟩ hv

/-- A new value, while there is a free entry. -/
theorem register (hnp : npUsr + 1 < npTot) (hv : ∀ u, 0 ≤ u → u < npTot → patches u ≠ v) :
    Registers (l ++ [v]) (npUsr + 1) (Function.update patches (npUsr + 1) v) (bump counts (npUsr + 1)) := by
  have hlow := h.low
  have hblank : v ≠ -99999 := fun heq => hv (npUsr + 1) (by omega) hnp (heq ▸ h.blank _ (by omega) hnp)
  have hold : ∀ {u}, IsUser npUsr u → Function.update patches (npUsr + 1) v u = patches u := fun hu =>
    Function.update_of_ne (by have := hu.2; omega) _ _
  have hne : ∀ {u}, IsUser npUsr u → patches u ≠ v := fun hu => hv _ hu.1 (by have := hu.2; omega)
  have hnew : v ∉ l := fun hmem => by
    obtain ⟨u, hu, heq⟩ := (h.mem v).mp (Finset.mem_erase.mpr ⟨hblank, List.mem_toFinset.mpr hmem⟩)
    exact hne hu heq
  have hcases : ∀ {u}, IsUser (npUsr + 1) u → IsUser npUsr u ∨ u = npUsr + 1 := fun {u} hu => by
    rcases hu.2.lt_or_eq with hlt | heq
    · exact Or.inl ⟨hu.1, Int.lt_add_one_iff.mp hlt⟩
    · exact Or.inr heq
  refine ⟨hlow.trans (Int.le_add_one le_rfl), hnp, ?inj, ?mem, ?blank, ?le, ?nonneg, ?sum, ?fits⟩
  case inj =>
    intro u w hu hw heq
    rcases hcases hu with hu' | rfl <;> rcases hcases hw with hw' | rfl
    · rw [hold hu', hold hw'] at heq
      exact h.inj u w hu' hw' heq
    · rw [hold hu', Function.update_self] at heq
      exact absurd heq (hne hu')
    · rw [hold hw', Function.update_self] at heq
      exact absurd heq.symm (hne hw')
    · rfl
  case mem =>
    intro w
    rw [registered_concat, if_neg hblank, Finset.mem_insert, h.mem]
    constructor
    · rintro (rfl | ⟨u, hu, rfl⟩)
      · exact ⟨npUsr + 1, ⟨by omega, le_rfl⟩, Function.update_self _ _ _⟩
      · exact ⟨u, ⟨hu.1, hu.2.trans (Int.le_add_one le_rfl)⟩, hold hu⟩
    · rintro ⟨u, hu, rfl⟩
      rcases hcases hu with hu' | rfl
      · exact Or.inr ⟨u, hu', (hold hu').symm⟩
      · exact Or.inl (Function.update_self _ _ _)
  case blank =>
    intro u hlt hu
    rw [Function.update_of_ne hlt.ne']
    exact h.blank u (by omega) hu
  case le =>
    intro u hu
    rw [List.count_append, List.count_singleton, bump_apply]
    rcases hcases hu with hu' | rfl
    · rw [hold hu', if_neg (by simpa using (hne hu').symm), if_neg (by have := hu'.2; omega), Nat.add_zero, add_zero]
      exact h.le u hu'
    · rw [Function.update_self, List.count_eq_zero.mpr hnew, if_pos (beq_self_eq_true v), if_pos rfl]
      have hnonneg := h.nonneg (npUsr + 1)
      push_cast
      omega
  case nonneg =>
    intro u
    have hnonneg := h.nonneg u
    rw [bump_apply]
    split_ifs <;> omega
  case sum =>
    rw [sum_bump (upto_nodup _ _) (mem_upto.mpr ⟨by omega, hnp⟩), h.sum, List.length_append, List.length_singleton,
      Nat.cast_add, Nat.cast_one]
  case fits =>
    intro hmany
    rcases tooMany_concat hmany with hold | hfull
    · exact h.fits hold
    · exact hnp.ne (h.full_iff.mp hfull).1

end

end Registers

def Tally.Registers (l : List ℤ) (t : Tally) : Prop := PatchySolid.Registers l t.npUsr t.usrPatches t.usrPCounts

namespace Tally.Registers

variable {l : List ℤ} {t : Tally}

/-- One neighbour: its value is counted, or registered, or there is no entry for it. -/
theorem tallyNeighbour_cases (h : t.Registers l) (v : ℤ) :
    (∃ t', tallyNeighbour t v = .ok t' ∧ t'.Registers (l ++ [v].filter (· ≠ 1)) ∧ t'.anyZeros = t.anyZeros ∧
      t'.defPCounts = t.defPCounts) ∨
    ∃ e, tallyNeighbour t v = .error e ∧ e = .bounds ∧ TooMany (l ++ [v].filter (· ≠ 1)) := by
  unfold tallyNeighbour
  by_cases hv : v = 1
  · subst hv
    exact Or.inl ⟨t, if_neg (not_not.mpr rfl), by simpa using h, rfl, rfl⟩
  rw [if_pos hv, List.filter_cons_of_pos (by simpa using hv), List.filter_nil]
  dsimp only
  rcases scanArray_cases v t.usrPatches npTot with ⟨hidx, hnone⟩ | ⟨hidx, hfound⟩
  · have hhigh := h.high
    rw [if_pos (by rw [hidx]; decide), if_neg (by omega)]
    rcases (Int.add_one_le_iff.mpr hhigh).lt_or_eq with hnp | hnp
    · rw [if_pos hnp]
      exact Or.inl ⟨_, rfl, h.register hnp hnone, rfl, rfl⟩
    · rw [if_neg hnp.not_lt]
      refine Or.inr ⟨_, rfl, rfl, l, v, [], rfl, h.full_iff.mpr ⟨hnp, fun u hu => hnone u hu.1 ?_⟩⟩
      exact hu.2.trans_lt hhigh
  · rw [if_neg (not_lt.mpr hidx.1)]
    exact Or.inl ⟨_, rfl, h.count hidx hfound, rfl, rfl⟩

theorem tallyNeighbours_cases (h : t.Registers l) (vs : List ℤ) :
    (∃ t', vs.foldlM tallyNeighbour t = .ok t' ∧ t'.Registers (l ++ vs.filter (· ≠ 1)) ∧ t'.anyZeros = t.anyZeros ∧
      t'.defPCounts = t.defPCounts) ∨
    ∃ e, vs.foldlM tallyNeighbour t = .error e ∧ e = .bounds ∧ TooMany (l ++ vs.filter (· ≠ 1)) := by
  refine foldlM_inv_or (fun pre (t' : Tally) => t'.Registers (l ++ pre.filter (· ≠ 1)) ∧ t'.anyZeros = t.anyZeros ∧
    t'.defPCounts = t.defPCounts) ⟨by simpa using h, rfl, rfl⟩ ?_
  rintro pre v post s rfl ⟨hs, hzeros, hdefs⟩
  rcases tallyNeighbour_cases hs v with ⟨s', hs', hr, hz, hd⟩ | ⟨e, he, rfl, hmany⟩
  · refine Or.inl ⟨s', hs', ?_, hz.trans hzeros, hd.trans hdefs⟩
    rwa [List.filter_append, ← List.append_assoc]
  · refine Or.inr ⟨_, he, rfl, ?_⟩
    rw [show pre ++ v :: post = pre ++ [v] ++ post by simp, List.filter_append, List.filter_append, ← List.append_assoc,
      ← List.append_assoc]
    exact hmany.append _

end Tally.Registers

/-! ## The cells -/

section

variable {K : Type} [Field K] [LinearOrder K] [FloorRing K] (msk : Databox K)

/-- The columns of the solid. -/
def actives (cells : List (ℤ × ℤ)) : List (ℤ × ℤ) := cells.filter fun c => maskVal msk c = 1

/-- The faces for the default patches. -/
def edgeFaces (cells : List (ℤ × ℤ)) : List Side := (actives msk cells).flatMap fun c => faceOrder.filter (AtEdge msk c ·)

/-- The values of the neighbours that name a patch. -/
def touchedVals (cells : List (ℤ × ℤ)) : List ℤ := ((actives msk cells).flatMap (neighbourVals msk)).filter (· ≠ 1)

structure Tallied (cells : List (ℤ × ℤ)) (t : Tally) : Prop where
  zeros : t.anyZeros = if ∃ c ∈ cells, maskVal msk c = 0 then 1 else 0
  defs : ∀ k, t.defPCounts k = (edgeFaces msk cells).countP fun side => faceIndex side = k
  users : t.Registers (touchedVals msk cells)

variable {msk} {cells : List (ℤ × ℤ)} {t : Tally}

theorem actives_append (cells cells' : List (ℤ × ℤ)) : actives msk (cells ++ cells') = actives msk cells ++ actives msk cells' :=
  List.filter_append ..

theorem edgeFaces_append (cells cells' : List (ℤ × ℤ)) :
    edgeFaces msk (cells ++ cells') = edgeFaces msk cells ++ edgeFaces msk cells' := by
  unfold edgeFaces
  rw [actives_append, List.flatMap_append]

theorem touchedVals_append (cells cells' : List (ℤ × ℤ)) :
    touchedVals msk (cells ++ cells') = touchedVals msk cells ++ touchedVals msk cells' := by
  unfold touchedVals
  rw [actives_append, List.flatMap_append, List.filter_append]

theorem actives_singleton (c : ℤ × ℤ) : actives msk [c] = if maskVal msk c = 1 then [c] else [] := by
  unfold actives
  split_ifs with h
  · exact List.filter_cons_of_pos (by simpa using h)
  · exact List.filter_cons_of_neg (by simpa using h)

theorem Tallied.tallyCell_cases (h : Tallied msk cells t) (c : ℤ × ℤ) :
    (∃ t', tallyCell msk t c = .ok t' ∧ Tallied msk (cells ++ [c]) t') ∨
    ∃ e, tallyCell msk t c = .error e ∧ e = .bounds ∧ TooMany (touchedVals msk (cells ++ [c])) := by
  have hzeros : (if t.anyZeros = 0 ∧ maskVal msk c = 0 then { t with anyZeros := 1 } else t) =
      { t with anyZeros := if ∃ c' ∈ cells ++ [c], maskVal msk c' = 0 then 1 else 0 } := by
    have hz := h.zeros
    simp only [List.mem_append, List.mem_singleton, or_and_right, exists_or, exists_eq_left]
    by_cases hold : ∃ c ∈ cells, maskVal msk c = 0
    · rw [if_pos hold] at hz
      rw [if_neg (by rw [hz]; simp), if_pos (Or.inl hold), ← hz]
    · rw [if_neg hold] at hz
      by_cases hc : maskVal msk c = 0
      · rw [if_pos ⟨hz, hc⟩, if_pos (Or.inr hc)]
      · rw [if_neg (fun h => hc h.2), if_neg (not_or.mpr ⟨hold, hc⟩), ← hz]
  unfold tallyCell
  dsimp only
  rw [hzeros]
  generalize hflag : (if ∃ c' ∈ cells ++ [c], maskVal msk c' = 0 then (1 : ℤ) else 0) = flag
  by_cases hactive : maskVal msk c = 1
  · rw [if_pos hactive]
    have hactives : actives msk [c] = [c] := (actives_singleton c).trans (if_pos hactive)
    have hedge : edgeFaces msk [c] = faceOrder.filter (AtEdge msk c ·) := by
      unfold edgeFaces
      rw [hactives]
      exact List.flatMap_singleton _ _
    have htouched : touchedVals msk [c] = (neighbourVals msk c).filter (· ≠ 1) := by
      unfold touchedVals
      rw [hactives]
      exact congrArg _ (List.flatMap_singleton _ _)
    have husers : Tally.Registers (touchedVals msk cells) { t with
        anyZeros := flag
        defPCounts := (faceOrder.filter (AtEdge msk c ·)).foldl (fun counts side => bump counts (faceIndex side)) t.defPCounts } :=
      h.users
    rw [touchedVals_append, htouched]
    rcases husers.tallyNeighbours_cases (neighbourVals msk c) with ⟨t', ht', hr, hz, hd⟩ | ⟨e, he, rfl, hmany⟩
    · refine Or.inl ⟨t', ht', hz.trans hflag.symm, fun k => ?_, ?_⟩
      · rw [edgeFaces_append, List.countP_append, hedge, Nat.cast_add, ← h.defs, hd]
        exact foldl_bump ..
      · rwa [touchedVals_append, htouched]
    · exact Or.inr ⟨_, he, rfl, hmany⟩
  · rw [if_neg hactive]
    have hactives : actives msk [c] = [] := (actives_singleton c).trans (if_neg hactive)
    have hedge : edgeFaces msk [c] = [] := congrArg (List.flatMap _) hactives
    have htouched : touchedVals msk [c] = [] := congrArg (fun l => (l.flatMap (neighbourVals msk)).filter (· ≠ 1)) hactives
    refine Or.inl ⟨_, rfl, hflag.symm, ?_, ?_⟩
    · rw [edgeFaces_append, hedge, List.append_nil]
      exact h.defs
    · rw [touchedVals_append, htouched, List.append_nil]
      exact h.users

/-- The pass ends with the counts, unless another value comes after thirty. -/
theorem tallyMask_cases (msk : Databox K) :
    (∃ t, tallyMask msk = .ok t ∧ Tallied msk (gridLoop msk.nx msk.ny) t) ∨
    ∃ e, tallyMask msk = .error e ∧ e = .bounds ∧ TooMany (touchedVals msk (gridLoop msk.nx msk.ny)) := by
  refine foldlM_inv_or (Tallied msk) ⟨by simp [Tally.start], fun k => by simp [Tally.start, edgeFaces, actives], ?_⟩ ?_
  · exact Registers.start
  · intro pre c post t hl ht
    rcases ht.tallyCell_cases c with hok | ⟨e, he, hb, hmany⟩
    · exact Or.inl hok
    · refine Or.inr ⟨e, he, hb, ?_⟩
      rw [hl, show pre ++ c :: post = pre ++ [c] ++ post by simp, touchedVals_append]
      exact hmany.append _

end

end ParFlow.PatchySolid
