import Mathlib

/-! Lists of pieces that tile a set without overlap, and coarsening of a family
by merging members. Every region algorithm is specified through `Exact`. -/

namespace Cover

variable {ι κ α : Type*}

/-- The pieces of `l` are pairwise disjoint and their union is `s`. -/
def Exact (cells : ι → Finset α) (l : List ι) (s : Set α) : Prop :=
  l.Pairwise (fun a b => Disjoint (cells a) (cells b)) ∧ ∀ x, (∃ a ∈ l, x ∈ cells a) ↔ x ∈ s

theorem Exact.mem_iff {cells : ι → Finset α} {l : List ι} {s : Set α} (h : Exact cells l s)
    (x : α) : (∃ a ∈ l, x ∈ cells a) ↔ x ∈ s := h.2 x

theorem exact_nil (cells : ι → Finset α) : Exact cells [] ∅ := by
  refine ⟨List.Pairwise.nil, fun x => ?_⟩
  simp

theorem exact_singleton (cells : ι → Finset α) (a : ι) : Exact cells [a] ↑(cells a) := by
  refine ⟨List.pairwise_singleton _ _, fun x => ?_⟩
  simp

theorem Exact.congr {cells : ι → Finset α} {l : List ι} {s t : Set α} (h : Exact cells l s)
    (hst : ∀ x, x ∈ s ↔ x ∈ t) : Exact cells l t := ⟨h.1, fun x => (h.2 x).trans (hst x)⟩

/-- Relabelling the pieces without moving them. -/
theorem Exact.map {cells : ι → Finset α} {l : List ι} {s : Set α} (h : Exact cells l s)
    (f : ι → κ) (cells' : κ → Finset α) (hf : ∀ a ∈ l, cells' (f a) = cells a) :
    Exact cells' (l.map f) s := by
  refine ⟨?_, fun x => ?_⟩
  · rw [List.pairwise_map]
    refine h.1.imp_of_mem fun {a b} ha hb hab => ?_
    rw [hf a ha, hf b hb]
    exact hab
  · rw [← h.2 x]
    constructor
    · rintro ⟨b, hb, hx⟩
      obtain ⟨a, ha, rfl⟩ := List.mem_map.mp hb
      exact ⟨a, ha, hf a ha ▸ hx⟩
    · rintro ⟨a, ha, hx⟩
      exact ⟨f a, List.mem_map_of_mem ha, (hf a ha).symm ▸ hx⟩

theorem Exact.append {cells : ι → Finset α} {l m : List ι} {s t : Set α} (hl : Exact cells l s)
    (hm : Exact cells m t) (hst : Disjoint s t) : Exact cells (l ++ m) (s ∪ t) := by
  refine ⟨List.pairwise_append.mpr ⟨hl.1, hm.1, fun a ha b hb => ?_⟩, fun x => ?_⟩
  · rw [Finset.disjoint_left]
    intro x hxa hxb
    exact Set.disjoint_left.mp hst ((hl.2 x).mp ⟨a, ha, hxa⟩) ((hm.2 x).mp ⟨b, hb, hxb⟩)
  · rw [Set.mem_union, ← hl.2 x, ← hm.2 x]
    constructor
    · rintro ⟨a, ha, hx⟩
      rcases List.mem_append.mp ha with h | h
      · exact Or.inl ⟨a, h, hx⟩
      · exact Or.inr ⟨a, h, hx⟩
    · rintro (⟨a, ha, hx⟩ | ⟨a, ha, hx⟩)
      · exact ⟨a, List.mem_append_left _ ha, hx⟩
      · exact ⟨a, List.mem_append_right _ ha, hx⟩

/-- Tiling each of a list of pairwise disjoint sets tiles their union. -/
theorem exact_flatMap {cells : ι → Finset α} (ks : List κ) (f : κ → List ι) (s : κ → Set α)
    (h : ∀ k ∈ ks, Exact cells (f k) (s k)) (hd : ks.Pairwise (fun a b => Disjoint (s a) (s b))) :
    Exact cells (ks.flatMap f) {x | ∃ k ∈ ks, x ∈ s k} := by
  induction ks with
  | nil => exact (exact_nil cells).congr fun x => by simp
  | cons k ks ih =>
    rw [List.pairwise_cons] at hd
    have hk := h k List.mem_cons_self
    have hks := ih (fun k' hk' => h k' (List.mem_cons_of_mem _ hk')) hd.2
    rw [List.flatMap_cons]
    refine (hk.append hks ?_).congr fun x => ?_
    · rw [Set.disjoint_left]
      rintro x hx ⟨k', hk', hx'⟩
      exact Set.disjoint_left.mp (hd.1 k' hk') hx hx'
    · simp

section Counting

variable [DecidableEq α]

/-- A tiling meets each point of the set once and other points never. -/
theorem Exact.countP {cells : ι → Finset α} {l : List ι} {s : Set α} (h : Exact cells l s) (x : α)
    [Decidable (x ∈ s)] : l.countP (fun a => x ∈ cells a) = if x ∈ s then 1 else 0 := by
  obtain ⟨hd, hu⟩ := h
  have hx := hu x
  clear hu
  induction l generalizing s with
  | nil => simp at hx; simp [hx]
  | cons a l ih =>
    rw [List.pairwise_cons] at hd
    rw [List.countP_cons]
    by_cases ha : x ∈ cells a
    · have hz : l.countP (fun a => x ∈ cells a) = 0 := by
        rw [List.countP_eq_zero]
        intro b hb
        simpa using Finset.disjoint_left.mp (hd.1 b hb) ha
      have hs : x ∈ s := hx.mp ⟨a, List.mem_cons_self, ha⟩
      simp [hz, ha, hs]
    · have hx' : (∃ b ∈ l, x ∈ cells b) ↔ x ∈ s := by
        rw [← hx]
        simp [ha]
      simp [ih hd.2 hx', ha]

/-- The pieces of a tiling have as many points as the set. -/
theorem Exact.card_sum {cells : ι → Finset α} {l : List ι} {t : Finset α}
    (h : Exact cells l ↑t) : (l.map fun a => (cells a).card).sum = t.card := by
  obtain ⟨hd, hu⟩ := h
  induction l generalizing t with
  | nil =>
    have ht : t = ∅ := Finset.eq_empty_of_forall_notMem fun x hx => by simpa using (hu x).mpr hx
    simp [ht]
  | cons a l ih =>
    rw [List.pairwise_cons] at hd
    have ha : cells a ⊆ t := fun x hx => (hu x).mp ⟨a, List.mem_cons_self, hx⟩
    have hrest : ∀ x, (∃ b ∈ l, x ∈ cells b) ↔ x ∈ (↑(t \ cells a) : Set α) := by
      intro x
      rw [Finset.mem_coe, Finset.mem_sdiff]
      constructor
      · rintro ⟨b, hb, hx⟩
        exact ⟨(hu x).mp ⟨b, List.mem_cons_of_mem _ hb, hx⟩,
          Finset.disjoint_right.mp (hd.1 b hb) hx⟩
      · rintro ⟨hxt, hxa⟩
        obtain ⟨b, hb, hx⟩ := (hu x).mpr hxt
        rcases List.mem_cons.mp hb with rfl | hb
        · exact absurd hx hxa
        · exact ⟨b, hb, hx⟩
    rw [List.map_cons, List.sum_cons, ih hd.2 hrest, Finset.card_sdiff_of_subset ha]
    have := Finset.card_le_card ha
    omega

/-- Summed sizes are at least the size of the union, with equality exactly when no two pieces meet. -/
theorem card_le_sum_and_eq_iff {cells : ι → Finset α} {l : List ι} {t : Finset α}
    (ht : ∀ x, x ∈ t ↔ ∃ a ∈ l, x ∈ cells a) :
    t.card ≤ (l.map fun a => (cells a).card).sum ∧
      (t.card = (l.map fun a => (cells a).card).sum ↔
        l.Pairwise (fun a b => Disjoint (cells a) (cells b))) := by
  classical
  induction l generalizing t with
  | nil =>
    have h0 : t = ∅ := Finset.eq_empty_of_forall_notMem fun x hx => by simpa using (ht x).mp hx
    simp [h0]
  | cons a l ih =>
    let u := t.filter fun x => ∃ b ∈ l, x ∈ cells b
    have hu : ∀ x, x ∈ u ↔ ∃ b ∈ l, x ∈ cells b := by
      intro x
      rw [Finset.mem_filter, ht]
      exact ⟨fun h => h.2, fun h => ⟨h.imp fun b hb => ⟨List.mem_cons_of_mem _ hb.1, hb.2⟩, h⟩⟩
    have htu : t = cells a ∪ u := by
      ext x
      rw [Finset.mem_union, hu, ht]
      simp
    have hinter : (cells a ∩ u).card = 0 ↔ ∀ b ∈ l, Disjoint (cells a) (cells b) := by
      rw [Finset.card_eq_zero, ← Finset.disjoint_iff_inter_eq_empty]
      constructor
      · intro h b hb
        exact Finset.disjoint_left.mpr fun x hxa hxb =>
          Finset.disjoint_left.mp h hxa ((hu x).mpr ⟨b, hb, hxb⟩)
      · intro h
        refine Finset.disjoint_left.mpr fun x hxa hxu => ?_
        obtain ⟨b, hb, hxb⟩ := (hu x).mp hxu
        exact Finset.disjoint_left.mp (h b hb) hxa hxb
    obtain ⟨hle, hiff⟩ := ih hu
    have hcard := Finset.card_union_add_card_inter (cells a) u
    rw [← htu] at hcard
    rw [List.pairwise_cons, ← hinter, ← hiff, List.map_cons, List.sum_cons]
    omega

/-- Two tilings of one set have equally many points. -/
theorem Exact.card_sum_eq {cells : ι → Finset α} {cells' : κ → Finset α} {l : List ι} {m : List κ}
    {s : Set α} (hl : Exact cells l s) (hm : Exact cells' m s) :
    (l.map fun a => (cells a).card).sum = (m.map fun a => (cells' a).card).sum := by
  have hfin : s = ↑(l.foldr (fun a t => cells a ∪ t) ∅) := by
    have key : ∀ l : List ι, ∀ x, x ∈ l.foldr (fun a t => cells a ∪ t) ∅ ↔ ∃ a ∈ l, x ∈ cells a := by
      intro l x
      induction l with
      | nil => simp
      | cons a l ih => simp [ih]
    ext x
    rw [Finset.mem_coe, key l x, hl.mem_iff]
  rw [hfin] at hl hm
  rw [hl.card_sum, hm.card_sum]

theorem sum_le_and_eq_iff {f g : ι → ℕ} {l : List ι} (h : ∀ a ∈ l, f a ≤ g a) :
    (l.map f).sum ≤ (l.map g).sum ∧ ((l.map f).sum = (l.map g).sum ↔ ∀ a ∈ l, f a = g a) := by
  induction l with
  | nil => simp
  | cons a l ih =>
    obtain ⟨hle, hiff⟩ := ih fun b hb => h b (List.mem_cons_of_mem _ hb)
    have ha := h a List.mem_cons_self
    rw [List.map_cons, List.sum_cons, List.map_cons, List.sum_cons, List.forall_mem_cons, ← hiff]
    omega

theorem sum_comm (f : ι → κ → ℕ) (l : List ι) (m : List κ) :
    (l.map fun a => (m.map fun b => f a b).sum).sum = (m.map fun b => (l.map fun a => f a b).sum).sum := by
  induction l with
  | nil => simp
  | cons a l ih =>
    simp only [List.map_cons, List.sum_cons]
    rw [ih, List.sum_map_add]

end Counting

/-! ## Coarsening -/

/-- `B` arises from `A` by merging members: `rep` names the member of `B` that absorbs each `A p`. -/
def Coarsens (A B : ι → Set α) : Prop :=
  ∃ rep : ι → ι, ∀ q x, x ∈ B q ↔ ∃ p, rep p = q ∧ x ∈ A p

theorem Coarsens.refl (A : ι → Set α) : Coarsens A A := by
  refine ⟨id, fun q x => ⟨fun hx => ⟨q, rfl, hx⟩, ?_⟩⟩
  rintro ⟨p, rfl, hx⟩
  exact hx

theorem Coarsens.trans {A B C : ι → Set α} (hAB : Coarsens A B) (hBC : Coarsens B C) :
    Coarsens A C := by
  obtain ⟨r, hr⟩ := hAB
  obtain ⟨r', hr'⟩ := hBC
  refine ⟨r' ∘ r, fun q x => ?_⟩
  rw [hr' q x]
  constructor
  · rintro ⟨p, rfl, hx⟩
    obtain ⟨p', rfl, hx'⟩ := (hr p x).mp hx
    exact ⟨p', rfl, hx'⟩
  · rintro ⟨p, rfl, hx⟩
    exact ⟨r p, rfl, (hr (r p) x).mpr ⟨p, rfl, hx⟩⟩

/-- Moving the member at `q` into the one at `p`. -/
theorem coarsens_merge [DecidableEq ι] {A B : ι → Set α} {p q : ι} (hpq : p ≠ q)
    (hp : B p = A p ∪ A q) (hq : B q = ∅) (hne : ∀ r, r ≠ p → r ≠ q → B r = A r) :
    Coarsens A B := by
  refine ⟨fun r => if r = q then p else r, fun r x => ?_⟩
  by_cases hrp : r = p
  · subst hrp
    rw [hp]
    constructor
    · rintro (hx | hx)
      · exact ⟨r, by simp [hpq], hx⟩
      · exact ⟨q, by simp, hx⟩
    · rintro ⟨r', hr', hx⟩
      dsimp only at hr'
      split_ifs at hr' with h
      · exact Or.inr (h ▸ hx)
      · exact Or.inl (hr' ▸ hx)
  · by_cases hrq : r = q
    · subst hrq
      rw [hq]
      refine ⟨fun hx => absurd hx (Set.notMem_empty x), ?_⟩
      rintro ⟨r', hr', hx⟩
      dsimp only at hr'
      split_ifs at hr' with h
      · exact absurd hr' hpq
      · exact absurd hr' h
    · rw [hne r hrp hrq]
      refine ⟨fun hx => ⟨r, by simp [hrq], hx⟩, ?_⟩
      rintro ⟨r', hr', hx⟩
      dsimp only at hr'
      split_ifs at hr' with h
      · exact absurd hr'.symm hrp
      · exact hr' ▸ hx

theorem Coarsens.exists_mem_iff {A B : ι → Set α} (h : Coarsens A B) (x : α) :
    (∃ q, x ∈ B q) ↔ ∃ p, x ∈ A p := by
  obtain ⟨r, hr⟩ := h
  constructor
  · rintro ⟨q, hx⟩
    obtain ⟨p, -, hx'⟩ := (hr q x).mp hx
    exact ⟨p, hx'⟩
  · rintro ⟨p, hx⟩
    exact ⟨r p, (hr _ x).mpr ⟨p, rfl, hx⟩⟩

/-- Merging keeps the members disjoint. -/
theorem Coarsens.unique {A B : ι → Set α} (h : Coarsens A B)
    (hA : ∀ p q x, x ∈ A p → x ∈ A q → p = q) : ∀ p q x, x ∈ B p → x ∈ B q → p = q := by
  obtain ⟨r, hr⟩ := h
  intro p q x hp hq
  obtain ⟨p', rfl, hp'⟩ := (hr p x).mp hp
  obtain ⟨q', rfl, hq'⟩ := (hr q x).mp hq
  rw [hA p' q' x hp' hq']

end Cover
