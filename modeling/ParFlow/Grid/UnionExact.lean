import Mathlib.Data.List.GetD
import ParFlow.Grid.UnionJoin

/-! `UnionSubgridArray` tiles the union of its argument. The sorted corner indices
locate each cell in one block; marking records which blocks lie in a box, and the
joins merge the marked blocks. -/

namespace ParFlow.Union

open Cover

/-! ## Corner indices -/

section Index

variable {l : List ℤ} {p q : ℕ} {x : ℤ}

theorem getD_lt_getD (hl : l.Pairwise (· < ·)) (hpq : p < q) (hq : q < l.length) :
    l.getD p 0 < l.getD q 0 := by
  rw [List.getD_eq_getElem _ _ (hpq.trans hq), List.getD_eq_getElem _ _ hq]
  exact List.pairwise_iff_getElem.mp hl p q _ _ hpq

theorem getD_le_getD (hl : l.Pairwise (· < ·)) (hpq : p ≤ q) (hq : q < l.length) :
    l.getD p 0 ≤ l.getD q 0 := by
  rcases hpq.eq_or_lt with rfl | h
  · exact le_rfl
  · exact (getD_lt_getD hl h hq).le

/-- The search stops at the position that holds the index. -/
theorem seek_eq (hl : l.Pairwise (· < ·)) (hp : p < l.length) {j : ℕ} (hj : j ≤ p) :
    seek l (l.getD p 0) j = p := by
  rw [List.getD_eq_getElem _ _ hp]
  have hsplit : l.drop j = (l.drop j).take (p - j) ++ l[p] :: l.drop (p + 1) := by
    conv_lhs => rw [← List.take_append_drop (p - j) (l.drop j)]
    rw [List.drop_drop, show j + (p - j) = p by omega, List.drop_eq_getElem_cons hp]
  have htake : ∀ b ∈ (l.drop j).take (p - j), decide (l[p] > b) = true := by
    intro b hb
    obtain ⟨i, hi, rfl⟩ := List.mem_iff_getElem.mp hb
    simp only [List.length_take, List.length_drop] at hi
    rw [List.getElem_take, List.getElem_drop, decide_eq_true_eq]
    exact List.pairwise_iff_getElem.mp hl _ _ _ _ (by omega)
  rw [seek, hsplit, List.takeWhile_append_of_pos htake, List.takeWhile_cons_of_neg (by simp),
    List.append_nil, List.length_take, List.length_drop]
  omega

/-- An interval between two corner indices is made of the intervals between neighbours. -/
theorem mem_interval_iff (hl : l.Pairwise (· < ·)) (hpq : p ≤ q) (hq : q < l.length) :
    l.getD p 0 ≤ x ∧ x < l.getD q 0 ↔
      ∃ t, p ≤ t ∧ t < q ∧ l.getD t 0 ≤ x ∧ x < l.getD (t + 1) 0 := by
  constructor
  · rintro ⟨hpx, hxq⟩
    induction q with
    | zero =>
      obtain rfl : p = 0 := by omega
      omega
    | succ q ih =>
      by_cases hx : l.getD q 0 ≤ x
      · refine ⟨q, ?_, by omega, hx, hxq⟩
        by_contra hcon
        obtain rfl : p = q + 1 := by omega
        omega
      · have hpq' : p ≤ q := by
          by_contra hcon
          obtain rfl : p = q + 1 := by omega
          omega
        obtain ⟨t, h1, h2, h3⟩ := ih hpq' (by omega) (by omega)
        exact ⟨t, h1, by omega, h3⟩
  · rintro ⟨t, hpt, htq, h1, h2⟩
    exact ⟨(getD_le_getD hl hpt (by omega)).trans h1, h2.trans_le (getD_le_getD hl htq hq)⟩

theorem interval_unique (hl : l.Pairwise (· < ·)) (hp : p + 1 < l.length) (hq : q + 1 < l.length)
    (hpx : l.getD p 0 ≤ x ∧ x < l.getD (p + 1) 0) (hqx : l.getD q 0 ≤ x ∧ x < l.getD (q + 1) 0) :
    p = q := by
  rcases lt_trichotomy p q with h | h | h
  · have := getD_le_getD hl (show p + 1 ≤ q from h) (by omega)
    omega
  · exact h
  · have := getD_le_getD hl (show q + 1 ≤ p from h) (by omega)
    omega

theorem nodup_addIndex (hl : l.Nodup) (i : ℤ) : (addIndex l i).Nodup := by
  unfold addIndex
  split_ifs with h
  · exact hl
  · exact List.nodup_append.mpr ⟨hl, by simp, by
      intro y hy z hz
      rw [List.mem_singleton.mp hz]
      exact fun heq => h (heq ▸ hy)⟩

theorem mem_addIndex (i : ℤ) : x ∈ addIndex l i ↔ x ∈ l ∨ x = i := by
  unfold addIndex
  split_ifs with h
  · exact ⟨Or.inl, fun hx => hx.elim id fun he => he ▸ h⟩
  · simp

end Index

variable {sa : SubgridArray} {a : Axis}

theorem collectIndex_aux (a : Axis) (sa : SubgridArray) (l : List ℤ) (hl : l.Nodup) :
    let l' := sa.foldl (fun index s => addIndex (addIndex index (s.lo a)) (s.lo a + s.num a)) l
    l'.Nodup ∧ ∀ x, x ∈ l' ↔ x ∈ l ∨ ∃ s ∈ sa, x = s.lo a ∨ x = s.lo a + s.num a := by
  induction sa generalizing l with
  | nil => exact ⟨hl, fun x => by simp⟩
  | cons s sa ih =>
    obtain ⟨h1, h2⟩ := ih _ (nodup_addIndex (nodup_addIndex hl (s.lo a)) (s.lo a + s.num a))
    refine ⟨h1, fun x => (h2 x).trans ?_⟩
    rw [mem_addIndex, mem_addIndex]
    simp only [List.mem_cons, exists_eq_or_imp, or_assoc]

theorem mem_collectIndex {x : ℤ} : x ∈ collectIndex a sa ↔ ∃ s ∈ sa, x = s.lo a ∨ x = s.lo a + s.num a := by
  have := (collectIndex_aux a sa [] List.nodup_nil).2 x
  simpa [collectIndex] using this

theorem blockIndex_strict (sa : SubgridArray) (a : Axis) : (blockIndex sa a).Pairwise (· < ·) :=
  BubbleSort.bubbleSort_strict (collectIndex_aux a sa [] List.nodup_nil).1

theorem length_blockIndex (sa : SubgridArray) (a : Axis) :
    (blockIndex sa a).length = (collectIndex a sa).length :=
  (BubbleSort.bubbleSort_perm _ _).length_eq

theorem mem_blockIndex {x : ℤ} : x ∈ blockIndex sa a ↔ ∃ s ∈ sa, x = s.lo a ∨ x = s.lo a + s.num a :=
  (BubbleSort.bubbleSort_perm _ _).mem_iff.trans mem_collectIndex

theorem length_blockIndex_eq (h : sa ≠ []) : (blockIndex sa a).length = blockSz sa a + 1 := by
  rw [length_blockIndex, blockSz]
  have : 0 < (collectIndex a sa).length := by
    obtain ⟨s, hs⟩ := List.exists_mem_of_ne_nil sa h
    exact List.length_pos_of_mem (mem_collectIndex.mpr ⟨s, hs, Or.inl rfl⟩)
  omega

/-- The corners of a box of the array, as positions in the sorted indices. -/
theorem boxIndex_spec {s : Subgrid} (hs : s ∈ sa) (hn : s.NonEmpty) (a : Axis) :
    let ib := boxIndex (blockIndex sa) s a
    ib.1 < ib.2 ∧ ib.2 ≤ blockSz sa a ∧ (blockIndex sa a).getD ib.1 0 = s.lo a ∧
      (blockIndex sa a).getD ib.2 0 = s.lo a + s.num a := by
  have hst := blockIndex_strict sa a
  have hlen := length_blockIndex_eq (a := a) (List.ne_nil_of_mem hs)
  obtain ⟨p, hp, hpv⟩ := List.mem_iff_getElem.mp (mem_blockIndex.mpr ⟨s, hs, Or.inl rfl⟩ :
    s.lo a ∈ blockIndex sa a)
  obtain ⟨q, hq, hqv⟩ := List.mem_iff_getElem.mp (mem_blockIndex.mpr ⟨s, hs, Or.inr rfl⟩ :
    s.lo a + s.num a ∈ blockIndex sa a)
  rw [← List.getD_eq_getElem _ 0 hp] at hpv
  rw [← List.getD_eq_getElem _ 0 hq] at hqv
  have hpos := Subregion.nonEmpty_axis.mp hn a
  have hpq : p < q := by
    by_contra hcon
    have := getD_le_getD hst (not_lt.mp hcon) hp
    omega
  have hib : boxIndex (blockIndex sa) s a = (p, q) := by
    simp only [boxIndex]
    rw [← hpv, seek_eq hst hp (Nat.zero_le p), hpv, ← hqv, seek_eq hst hq hpq.le]
  rw [hib]
  exact ⟨hpq, by dsimp only; omega, hpv, hqv⟩

/-! ## Locating cells -/

/-- The cell lies in the block between the corner indices at `t` and their successors. -/
def LocatedAt (sa : SubgridArray) (c : Cell) (t : Axis → ℕ) : Prop :=
  ∀ a, t a < blockSz sa a ∧ (blockIndex sa a).getD (t a) 0 ≤ a.coord c ∧
    a.coord c < (blockIndex sa a).getD (t a + 1) 0

theorem locatedAt_unique {c : Cell} {t t' : Axis → ℕ} (h : sa ≠ []) (ht : LocatedAt sa c t)
    (ht' : LocatedAt sa c t') : t = t' := by
  funext a
  have hlen := length_blockIndex_eq (a := a) h
  have := ht a
  have := ht' a
  exact interval_unique (blockIndex_strict sa a) (by omega) (by omega) (ht a).2 (ht' a).2

/-- A box between corner indices holds the cells located in its blocks. -/
theorem mem_corners_iff {c : Cell} {p q : Axis → ℕ} (h : sa ≠ []) (hpq : ∀ a, p a ≤ q a)
    (hq : ∀ a, q a ≤ blockSz sa a) :
    (∀ a, (blockIndex sa a).getD (p a) 0 ≤ a.coord c ∧ a.coord c < (blockIndex sa a).getD (q a) 0) ↔
      ∃ t, LocatedAt sa c t ∧ ∀ a, p a ≤ t a ∧ t a < q a := by
  have key : ∀ a, ((blockIndex sa a).getD (p a) 0 ≤ a.coord c ∧
      a.coord c < (blockIndex sa a).getD (q a) 0) ↔ ∃ t, p a ≤ t ∧ t < q a ∧
        (blockIndex sa a).getD t 0 ≤ a.coord c ∧ a.coord c < (blockIndex sa a).getD (t + 1) 0 := by
    intro a
    have hlen := length_blockIndex_eq (a := a) h
    have := hq a
    exact mem_interval_iff (blockIndex_strict sa a) (hpq a) (by omega)
  rw [forall_congr' key]
  constructor
  · intro hex
    choose t h1 h2 h3 using hex
    exact ⟨t, fun a => ⟨(h2 a).trans_le (hq a), h3 a⟩, fun a => ⟨h1 a, h2 a⟩⟩
  · rintro ⟨t, hloc, ht⟩ a
    exact ⟨t a, (ht a).1, (ht a).2, (hloc a).2⟩

/-! ## Marking -/

theorem mem_boxPositions {ib : Axis → ℕ × ℕ} {P : Axis → ℕ} :
    P ∈ boxPositions ib ↔ ∀ a, (ib a).1 ≤ P a ∧ P a < (ib a).2 := by
  simp only [boxPositions, List.mem_flatMap, List.mem_map, List.mem_range'_1]
  rw [Axis.forall]
  constructor
  · rintro ⟨k, hk, j, hj, i, hi, rfl⟩
    simp only [pos]
    omega
  · rintro ⟨hx, hy, hz⟩
    refine ⟨P .z, by omega, P .y, by omega, P .x, by omega, ?_⟩
    funext a
    cases a <;> rfl

open Classical in
theorem foldl_update_apply {α : Type*} (l : List α) (f : α → ℕ) (v : ℕ) (g : ℕ → ℕ) (m : ℕ) :
    l.foldl (fun g x => Function.update g (f x) v) g m = if ∃ x ∈ l, f x = m then v else g m := by
  induction l generalizing g with
  | nil => simp
  | cons x l ih =>
    rw [List.foldl_cons, ih]
    by_cases hl : ∃ y ∈ l, f y = m
    · have hl' : ∃ y ∈ x :: l, f y = m := hl.imp fun y hy => ⟨List.mem_cons_of_mem _ hy.1, hy.2⟩
      rw [if_pos hl, if_pos hl']
    · rw [if_neg hl]
      by_cases hx : f x = m
      · rw [if_pos ⟨x, List.mem_cons_self, hx⟩, ← hx, Function.update_self]
      · have hl' : ¬ ∃ y ∈ x :: l, f y = m := by
          simpa [hx] using hl
        rw [if_neg hl', Function.update_of_ne (Ne.symm hx)]

/-- The position lies in the box of some subgrid of the array. -/
def Marked (sa : SubgridArray) (index : Axis → List ℤ) (P : Axis → ℕ) : Prop :=
  ∃ s ∈ sa, ∀ a, (boxIndex index s a).1 ≤ P a ∧ P a < (boxIndex index s a).2

open Classical in
theorem markSubgrid_apply {n : Axis → ℕ} {index : Axis → List ℤ} {block : ℕ → ℕ} {s : Subgrid}
    {P : Axis → ℕ} (hP : InRange n P) (hs : ∀ a, (boxIndex index s a).2 ≤ n a) :
    markSubgrid n index block s (blockAt n P) =
      if ∀ a, (boxIndex index s a).1 ≤ P a ∧ P a < (boxIndex index s a).2 then code n (fun _ => 1)
      else block (blockAt n P) := by
  rw [markSubgrid, foldl_update_apply]
  have hF : factor n .z + factor n .y + factor n .x = code n (fun _ => 1) := by
    simp only [code, Nat.one_mul]
    omega
  have hiff : (∃ Q ∈ boxPositions (boxIndex index s), blockAt n Q = blockAt n P) ↔
      ∀ a, (boxIndex index s a).1 ≤ P a ∧ P a < (boxIndex index s a).2 := by
    constructor
    · rintro ⟨Q, hQ, heq⟩
      rw [mem_boxPositions] at hQ
      have hQr : InRange n Q := fun a => (hQ a).2.trans_le (hs a)
      rw [← blockAt_injective hQr hP heq]
      exact hQ
    · intro h
      exact ⟨P, mem_boxPositions.mpr h, rfl⟩
  rw [hF]
  exact if_congr hiff rfl rfl

open Classical in
theorem markBlocks_aux {n : Axis → ℕ} {index : Axis → List ℤ} {P : Axis → ℕ} (hP : InRange n P)
    (hs : ∀ s ∈ sa, ∀ a, (boxIndex index s a).2 ≤ n a) (block : ℕ → ℕ) :
    sa.foldl (markSubgrid n index) block (blockAt n P) =
      if Marked sa index P then code n (fun _ => 1) else block (blockAt n P) := by
  induction sa generalizing block with
  | nil => simp [Marked]
  | cons s sa ih =>
    rw [List.foldl_cons, ih (fun s' hs' => hs s' (List.mem_cons_of_mem _ hs')),
      markSubgrid_apply hP (hs s List.mem_cons_self)]
    by_cases h1 : ∀ a, (boxIndex index s a).1 ≤ P a ∧ P a < (boxIndex index s a).2
    · have hm : Marked (s :: sa) index P := ⟨s, List.mem_cons_self, h1⟩
      rw [if_pos hm, if_pos h1, ite_self]
    · have hm : Marked (s :: sa) index P ↔ Marked sa index P := by
        simp only [Marked, List.mem_cons, exists_eq_or_imp, or_iff_right h1]
      rw [if_neg h1]
      exact (if_congr hm rfl rfl).symm

/-- A position is covered after marking exactly by its own block, and only when it is marked. -/
theorem mem_blockBox_markBlocks {n : Axis → ℕ} {index : Axis → List ℤ} {P t : Axis → ℕ}
    (hs : ∀ s ∈ sa, ∀ a, (boxIndex index s a).2 ≤ n a) :
    t ∈ blockBox n (markBlocks n index sa) P ↔ P = t ∧ Marked sa index t := by
  classical
  have hr : Marked sa index P → InRange n P := by
    rintro ⟨s, hs', h⟩ a
    exact (h a).2.trans_le (hs s hs' a)
  constructor
  · intro ht
    have hP := ht.1
    by_cases hm : Marked sa index P
    · have hb := markBlocks_aux (n := n) hP hs fun _ => 0
      rw [if_pos hm] at hb
      have hfit : Fits n P fun _ => 1 := fun a => ⟨le_rfl, hP a⟩
      have hbox := (mem_blockBox_code hfit hb).mp ht
      have hPt : P = t := funext fun a => by have := hbox a; omega
      exact ⟨hPt, hPt ▸ hm⟩
    · have hb := markBlocks_aux (n := n) hP hs fun _ => 0
      rw [if_neg hm] at hb
      exact absurd ht ((blockBox_zero hb) ▸ Set.notMem_empty t)
  · rintro ⟨rfl, hm⟩
    have hb := markBlocks_aux (n := n) (hr hm) hs fun _ => 0
    rw [if_pos hm] at hb
    have hfit : Fits n P fun _ => 1 := fun a => ⟨le_rfl, hr hm a⟩
    exact (mem_blockBox_code hfit hb).mpr fun a => by omega

theorem markBlocks_wellCoded {n : Axis → ℕ} {index : Axis → List ℤ}
    (hs : ∀ s ∈ sa, ∀ a, (boxIndex index s a).2 ≤ n a) :
    WellCoded n (fun _ => True) (markBlocks n index sa) := by
  classical
  intro P hP
  have hb := markBlocks_aux (n := n) hP hs fun _ => 0
  by_cases hm : Marked sa index P
  · rw [if_pos hm] at hb
    exact Or.inr ⟨fun _ => 1, fun a => ⟨le_rfl, hP a⟩, hb, fun _ _ => rfl⟩
  · rw [if_neg hm] at hb
    exact Or.inl hb

/-! ## The joined boxes -/

theorem mem_allPositions {n P : Axis → ℕ} : P ∈ allPositions n ↔ InRange n P := by
  simp only [allPositions, List.mem_flatMap, List.mem_map, List.mem_range]
  rw [InRange, Axis.forall]
  constructor
  · rintro ⟨k, hk, j, hj, i, hi, rfl⟩
    exact ⟨hi, hj, hk⟩
  · rintro ⟨hx, hy, hz⟩
    refine ⟨P .z, hz, P .y, hy, P .x, hx, ?_⟩
    funext a
    cases a <;> rfl

theorem allPositions_nodup (n : Axis → ℕ) : (allPositions n).Nodup := by
  refine List.nodup_flatMap.mpr ⟨fun k _ => List.nodup_flatMap.mpr ⟨fun j _ => ?_, ?_⟩, ?_⟩
  · exact List.nodup_range.map fun i i' h => congrFun h .x
  · refine List.nodup_range.imp fun {j j'} hne => ?_
    simp only [Function.onFun, List.disjoint_left, List.mem_map]
    rintro P ⟨i, -, rfl⟩ ⟨i', -, h⟩
    exact hne (congrFun h .y).symm
  · refine List.nodup_range.imp fun {k k'} hne => ?_
    simp only [Function.onFun, List.disjoint_left, List.mem_flatMap, List.mem_map]
    rintro P ⟨j, -, i, -, rfl⟩ ⟨j', -, i', -, h⟩
    exact hne (congrFun h .z).symm

/-- The box read back at a position holds the cells located in its blocks. -/
theorem joinedSubgrid_eq_some {rx ry rz : ℤ} {block : ℕ → ℕ} {P : Axis → ℕ} {u : Subgrid}
    (h : sa ≠ []) (hc : WellCoded (blockSz sa) (fun _ => False) block) (hP : InRange (blockSz sa) P)
    (hu : joinedSubgrid (blockSz sa) (blockIndex sa) rx ry rz block P = some u) :
    (∀ c, c ∈ u.cells ↔ ∃ t, LocatedAt sa c t ∧ t ∈ blockBox (blockSz sa) block P) ∧
      u.NonEmpty ∧ u.rx = rx ∧ u.ry = ry ∧ u.rz = rz := by
  unfold joinedSubgrid at hu
  dsimp only at hu
  split_ifs at hu with hv
  rcases hc P hP with hz | ⟨e, hfit, hb, -⟩
  · exact absurd hz hv
  rw [hb, hfit.extent, Option.some.injEq] at hu
  have hlt : ∀ a, (blockIndex sa a).getD (P a) 0 < (blockIndex sa a).getD (P a + e a) 0 := by
    intro a
    have := hfit a
    have hlen := length_blockIndex_eq (a := a) h
    exact getD_lt_getD (blockIndex_strict sa a) (by omega) (by omega)
  subst hu
  refine ⟨fun c => ?_, ⟨sub_pos.mpr (hlt .x), sub_pos.mpr (hlt .y), sub_pos.mpr (hlt .z)⟩, rfl, rfl, rfl⟩
  have hmem : (∃ t, LocatedAt sa c t ∧ t ∈ blockBox (blockSz sa) block P) ↔
      ∃ t, LocatedAt sa c t ∧ ∀ a, P a ≤ t a ∧ t a < P a + e a :=
    exists_congr fun t => and_congr_right fun _ => mem_blockBox_code hfit hb
  rw [hmem, ← mem_corners_iff h (fun a => Nat.le_add_right _ _) fun a => (hfit a).2,
    Subregion.mem_cells_axis]
  refine forall_congr' fun a => ?_
  cases a <;> simp [newSubgrid, Subregion.lo, Subregion.num]

theorem joinedSubgrid_eq_none {rx ry rz : ℤ} {block : ℕ → ℕ} {n P : Axis → ℕ} {index : Axis → List ℤ}
    (hu : joinedSubgrid n index rx ry rz block P = none) : blockBox n block P = ∅ := by
  unfold joinedSubgrid at hu
  dsimp only at hu
  split_ifs at hu with hv
  exact blockBox_zero (not_not.mp hv)

/-- Mark, join and read back: the union of boxes of one level. -/
theorem unionBlocks_exact (rx ry rz : ℤ) (hne : ∀ s ∈ sa, s.NonEmpty) :
    Exact Subregion.cells (unionBlocks rx ry rz sa) {c | ∃ s ∈ sa, c ∈ s.cells} ∧
      ∀ u ∈ unionBlocks rx ry rz sa, u.NonEmpty ∧ u.rx = rx ∧ u.ry = ry ∧ u.rz = rz := by
  rcases eq_or_ne sa [] with rfl | h
  · refine ⟨?_, by simp [unionBlocks, allPositions, blockSz, collectIndex]⟩
    exact (exact_nil Subregion.cells).congr fun c => by simp
  have hib : ∀ s ∈ sa, ∀ a, (boxIndex (blockIndex sa) s a).2 ≤ blockSz sa a :=
    fun s hs a => (boxIndex_spec hs (hne s hs) a).2.1
  have hmark := @mem_blockBox_markBlocks sa (blockSz sa) (blockIndex sa)
  obtain ⟨hco, hwc⟩ := joinBlocks_coarsens _ (markBlocks_wellCoded hib)
  set block := joinBlocks (blockSz sa) (markBlocks (blockSz sa) (blockIndex sa) sa) with hblock
  have huniq : ∀ P Q t, t ∈ blockBox (blockSz sa) block P → t ∈ blockBox (blockSz sa) block Q → P = Q :=
    hco.unique fun P Q t hP hQ => ((hmark hib).mp hP).1.trans ((hmark hib).mp hQ).1.symm
  have hsome : ∀ P u, P ∈ allPositions (blockSz sa) →
      joinedSubgrid (blockSz sa) (blockIndex sa) rx ry rz block P = some u →
        ∀ c, c ∈ u.cells ↔ ∃ t, LocatedAt sa c t ∧ t ∈ blockBox (blockSz sa) block P :=
    fun P u hP hu => (joinedSubgrid_eq_some h hwc (mem_allPositions.mp hP) hu).1
  refine ⟨⟨?_, fun c => ?_⟩, fun u hu => ?_⟩
  · rw [unionBlocks, List.pairwise_filterMap]
    refine (allPositions_nodup _).imp_of_mem fun {P Q} hP hQ hPQ u hu v hv => ?_
    rw [Finset.disjoint_left]
    intro c hcu hcv
    obtain ⟨t, hloc, ht⟩ := (hsome P u hP hu c).mp hcu
    obtain ⟨t', hloc', ht'⟩ := (hsome Q v hQ hv c).mp hcv
    rw [locatedAt_unique h hloc' hloc] at ht'
    exact hPQ (huniq P Q t ht ht')
  · have hin : (∃ s ∈ sa, c ∈ s.cells) ↔ ∃ t, LocatedAt sa c t ∧ Marked sa (blockIndex sa) t := by
      have hs : ∀ s ∈ sa, (c ∈ s.cells ↔ ∃ t, LocatedAt sa c t ∧
          ∀ a, (boxIndex (blockIndex sa) s a).1 ≤ t a ∧ t a < (boxIndex (blockIndex sa) s a).2) := by
        intro s hs
        have hsp := boxIndex_spec hs (hne s hs)
        rw [← mem_corners_iff h (fun a => (hsp a).1.le) fun a => (hsp a).2.1, Subregion.mem_cells_axis]
        exact forall_congr' fun a => by rw [(hsp a).2.2.1, (hsp a).2.2.2]
      constructor
      · rintro ⟨s, hs', hc⟩
        obtain ⟨t, hloc, ht⟩ := (hs s hs').mp hc
        exact ⟨t, hloc, s, hs', ht⟩
      · rintro ⟨t, hloc, s, hs', ht⟩
        exact ⟨s, hs', (hs s hs').mpr ⟨t, hloc, ht⟩⟩
    have hcov : ∀ t, (∃ P, t ∈ blockBox (blockSz sa) block P) ↔ Marked sa (blockIndex sa) t := by
      intro t
      rw [hco.exists_mem_iff t]
      exact ⟨fun ⟨P, hP⟩ => ((hmark hib).mp hP).2, fun hm => ⟨t, (hmark hib).mpr ⟨rfl, hm⟩⟩⟩
    rw [Set.mem_ofPred_eq, hin]
    constructor
    · rintro ⟨u, hu, hc⟩
      obtain ⟨P, hP, hPu⟩ := List.mem_filterMap.mp hu
      obtain ⟨t, hloc, ht⟩ := (hsome P u hP hPu c).mp hc
      exact ⟨t, hloc, (hcov t).mp ⟨P, ht⟩⟩
    · rintro ⟨t, hloc, hm⟩
      obtain ⟨P, hP⟩ := (hcov t).mpr hm
      rcases hu : joinedSubgrid (blockSz sa) (blockIndex sa) rx ry rz block P with _ | u
      · exact absurd hP (joinedSubgrid_eq_none hu ▸ Set.notMem_empty t)
      · have hPm := mem_allPositions.mpr hP.1
        exact ⟨u, List.mem_filterMap.mpr ⟨P, hPm, hu⟩, (hsome P u hPm hu c).mpr ⟨t, hloc, hP⟩⟩
  · obtain ⟨P, hP, hPu⟩ := List.mem_filterMap.mp hu
    exact (joinedSubgrid_eq_some h hwc (mem_allPositions.mp hP) hPu).2

/-! ## One resolution -/

theorem levelArray_of_sameRes {s₀ : Subgrid} (hs₀ : s₀ ∈ sa) (hres : ∀ s ∈ sa, s.SameRes s₀) :
    levelArray sa = [s₀.level] := by
  have key : ∀ l : SubgridArray, (∀ s ∈ l, s.SameRes s₀) → ∀ levels, levels = [] ∨ levels = [s₀.level] →
      l.foldl (fun levels s => addLevel levels s.level) levels = if l = [] then levels else [s₀.level] := by
    intro l
    induction l with
    | nil => intro _ levels _; simp
    | cons s l ih =>
      intro hl levels hlev
      have hadd : addLevel levels s.level = [s₀.level] := by
        rw [(hl s List.mem_cons_self).level_eq]
        rcases hlev with rfl | rfl <;> simp [addLevel, insertLevel]
      rw [List.foldl_cons, hadd, ih (fun s' hs' => hl s' (List.mem_cons_of_mem _ hs')) _ (Or.inr rfl)]
      simp
  rw [levelArray, key sa hres [] (Or.inl rfl), if_neg (List.ne_nil_of_mem hs₀)]

/-- With one resolution there is one level and nothing to subtract. -/
theorem unionSubgridArray_eq {s₀ : Subgrid} {rest : SubgridArray}
    (hres : ∀ s ∈ rest, s.SameRes s₀) : unionSubgridArray (s₀ :: rest) =
      unionBlocks s₀.rx s₀.ry s₀.rz (s₀ :: rest) := by
  have hall : ∀ s ∈ s₀ :: rest, s.SameRes s₀ := by
    intro s hs
    rcases List.mem_cons.mp hs with rfl | hs
    · exact ⟨rfl, rfl, rfl⟩
    · exact hres s hs
  have hfilter : (s₀ :: rest).filter (fun s => s.level = s₀.level) = s₀ :: rest :=
    List.filter_eq_self.mpr fun s hs => by simp [(hall s hs).level_eq]
  rw [unionSubgridArray, levelArray_of_sameRes List.mem_cons_self hall, List.foldr_cons,
    List.foldr_nil, unionLevel, hfilter]
  simp

/-- The boxes returned for subgrids of one resolution tile their union. -/
theorem unionSubgridArray_tiles (hne : ∀ s ∈ sa, s.NonEmpty) (hres : ∀ s ∈ sa, ∀ t ∈ sa, s.SameRes t) :
    Exact Subregion.cells (unionSubgridArray sa) {c | ∃ s ∈ sa, c ∈ s.cells} ∧
      ∀ u ∈ unionSubgridArray sa, u.NonEmpty ∧ ∀ s ∈ sa, u.SameRes s := by
  rcases sa with _ | ⟨s₀, rest⟩
  · exact ⟨(exact_nil Subregion.cells).congr fun c => by simp, by simp [unionSubgridArray, levelArray]⟩
  · rw [unionSubgridArray_eq fun s hs => hres s (List.mem_cons_of_mem _ hs) s₀ List.mem_cons_self]
    obtain ⟨hex, hu⟩ := unionBlocks_exact s₀.rx s₀.ry s₀.rz hne
    refine ⟨hex, fun u hm => ⟨(hu u hm).1, fun s hs => ?_⟩⟩
    exact Subregion.SameRes.trans (t := s₀) (hu u hm).2 (hres s₀ List.mem_cons_self s hs)

/-- `UnionSubgridArray` on any array of non-empty subgrids of one resolution: no cell of the result
lies in two boxes, and the cells of the boxes are the cells of the argument. -/
theorem unionSubgridArray_disjoint_union (sa : SubgridArray) (hne : ∀ s ∈ sa, s.NonEmpty)
    (hres : ∀ s ∈ sa, ∀ t ∈ sa, s.SameRes t) :
    (unionSubgridArray sa).Pairwise (fun u v => Disjoint u.cells v.cells) ∧
      ∀ c, (∃ u ∈ unionSubgridArray sa, c ∈ u.cells) ↔ ∃ s ∈ sa, c ∈ s.cells :=
  (unionSubgridArray_tiles hne hres).1

/-- Two overlapping boxes, one of them listed twice. -/
def overlapping : SubgridArray :=
  [newSubgrid (-1) 0 0 3 2 1 0 0 0 0, newSubgrid 1 1 0 2 2 2 0 0 0 5, newSubgrid (-1) 0 0 3 2 1 0 0 0 0]

theorem unionSubgridArray_overlapping :
    (unionSubgridArray overlapping).Pairwise (fun u v => Disjoint u.cells v.cells) ∧
      ∀ c, (∃ u ∈ unionSubgridArray overlapping, c ∈ u.cells) ↔ ∃ s ∈ overlapping, c ∈ s.cells :=
  unionSubgridArray_disjoint_union overlapping (by decide) (by decide)

end ParFlow.Union
