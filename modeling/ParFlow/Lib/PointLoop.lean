import Mathlib
import ParFlow.Lib.IntLoop

/-! Loops that write one place of an array in each round, and loops over disjoint pieces. -/

namespace PointLoop

variable {ι κ σ α β : Type*}

section Update

variable [DecidableEq α] {addr : ι → α} {val : ι → (α → β) → β} {l : List ι}

theorem foldl_update_of_notMem {a : α} (ha : a ∉ l.map addr) (d : α → β) :
    (l.foldl (fun d i => Function.update d (addr i) (val i d)) d) a = d a := by
  induction l generalizing d with
  | nil => rfl
  | cons i l ih =>
    rw [List.map_cons, List.mem_cons, not_or] at ha
    rw [List.foldl_cons, ih ha.2, Function.update_of_ne ha.1]

/-- The rounds write different places, and none of them reads a place that another one writes. -/
theorem foldl_update_of_mem (hnodup : (l.map addr).Nodup)
    (hval : ∀ i ∈ l, ∀ d d' : α → β, (∀ a, a = addr i ∨ a ∉ l.map addr → d a = d' a) → val i d = val i d')
    {i : ι} (hi : i ∈ l) (d : α → β) :
    (l.foldl (fun d i => Function.update d (addr i) (val i d)) d) (addr i) = val i d := by
  induction l generalizing d with
  | nil => exact absurd hi List.not_mem_nil
  | cons j l ih =>
    rw [List.map_cons, List.nodup_cons] at hnodup
    rw [List.foldl_cons]
    rcases List.mem_cons.mp hi with rfl | hmem
    · rw [foldl_update_of_notMem hnodup.1, Function.update_self]
    · rw [ih hnodup.2 ?_ hmem]
      · apply hval i hi
        intro a ha
        apply Function.update_of_ne
        rintro rfl
        rcases ha with he | hnot
        · exact hnodup.1 (he ▸ List.mem_map_of_mem hmem)
        · exact hnot (List.mem_map_of_mem List.mem_cons_self)
      · intro k hk d d' hd
        apply hval k (List.mem_cons_of_mem _ hk)
        intro a ha
        apply hd
        rcases ha with he | hnot
        · exact Or.inl he
        · exact Or.inr fun hl => hnot (List.mem_cons_of_mem _ hl)

end Update

/-! ## Counting loops -/

section Counting

open IntLoop

variable [DecidableEq α]

theorem upto_get (addr : ℤ → α) (hinj : Function.Injective addr) (val : ℤ → β) (lo hi : ℤ) (d : α → β) {i : ℤ}
    (hi' : lo ≤ i ∧ i < hi) :
    ((upto lo hi).foldl (fun d i => Function.update d (addr i) (val i)) d) (addr i) = val i :=
  foldl_update_of_mem ((upto_nodup lo hi).map hinj) (fun _ _ _ _ _ => rfl) (mem_upto.mpr hi') d

theorem upto_get_of_ne (addr : ℤ → α) (val : ℤ → (α → β) → β) (lo hi : ℤ) (d : α → β) {a : α}
    (ha : ∀ i, lo ≤ i ∧ i < hi → addr i ≠ a) :
    ((upto lo hi).foldl (fun d i => Function.update d (addr i) (val i d)) d) a = d a := by
  apply foldl_update_of_notMem
  rintro hmem
  obtain ⟨i, hi, rfl⟩ := List.mem_map.mp hmem
  exact ha i (mem_upto.mp hi) rfl

end Counting

/-! ## One entry through a loop -/

section Entry

variable {step : σ → ι → σ} {l : List ι} {i : ι} {x : β}

theorem foldl_get_of_keep (get : σ → β) (hkeep : ∀ s, ∀ j ∈ l, get (step s j) = get s) (s : σ) :
    get (l.foldl step s) = get s := by
  induction l generalizing s with
  | nil => rfl
  | cons j l ih =>
    rw [List.foldl_cons, ih fun s k hk => hkeep s k (List.mem_cons_of_mem _ hk)]
    exact hkeep s j List.mem_cons_self

/-- One round sets the entry, whatever it was, and no other round changes it. -/
theorem foldl_get_of_mem (get : σ → β) (hset : ∀ s, get (step s i) = x)
    (hkeep : ∀ s, ∀ j ∈ l, j ≠ i → get (step s j) = get s) (hi : i ∈ l) (s : σ) : get (l.foldl step s) = x := by
  have hstay : ∀ l' : List ι, (∀ j ∈ l', j ∈ l) → ∀ s, get s = x → get (l'.foldl step s) = x := by
    intro l'
    induction l' with
    | nil => exact fun _ s hs => hs
    | cons j l' ih =>
      intro hl' s hs
      rw [List.foldl_cons]
      apply ih fun k hk => hl' k (List.mem_cons_of_mem _ hk)
      by_cases hj : j = i
      · rw [hj, hset]
      · rw [hkeep s j (hl' j List.mem_cons_self) hj, hs]
  obtain ⟨pre, post, rfl⟩ := List.append_of_mem hi
  rw [List.foldl_append, List.foldl_cons]
  exact hstay post (fun j hj => by simp [hj]) _ (hset _)

/-- One round changes the entry, and no other round does. -/
theorem foldl_get_once (get : σ → β) (g : β → β) (hl : l.Nodup) (hset : ∀ s, get (step s i) = g (get s))
    (hkeep : ∀ s, ∀ j ∈ l, j ≠ i → get (step s j) = get s) (hi : i ∈ l) (s : σ) : get (l.foldl step s) = g (get s) := by
  obtain ⟨pre, post, rfl⟩ := List.append_of_mem hi
  have hne : ∀ j ∈ pre ++ post, j ≠ i := by
    rintro j hj rfl
    exact (List.nodup_cons.mp (List.nodup_middle.mp hl)).1 hj
  rw [List.foldl_append, List.foldl_cons, foldl_get_of_keep get fun s j hj => hkeep s j (by simp [hj]) (hne j (by simp [hj])),
    hset, foldl_get_of_keep get fun s j hj => hkeep s j (by simp [hj]) (hne j (by simp [hj]))]

end Entry

/-! ## Loops that count up -/

/-- Round `k` of a loop may write entry `k`. -/
theorem foldl_range_update {c : ℕ → Prop} [DecidablePred c] (f : ℕ → (ℕ → β) → β) (d : ℕ → β) (m k : ℕ) :
    ((List.range m).foldl (fun d k => if c k then Function.update d k (f k d) else d) d) k =
      if k < m ∧ c k then f k ((List.range k).foldl (fun d k => if c k then Function.update d k (f k d) else d) d) else d k := by
  induction m with
  | zero => simp
  | succ m ih =>
    rw [List.range_succ, List.foldl_append, List.foldl_cons, List.foldl_nil]
    by_cases hkm : k = m
    · subst hkm
      by_cases hc : c k
      · rw [if_pos hc, Function.update_self, if_pos ⟨Nat.lt_succ_self k, hc⟩]
      · rw [if_neg hc, ih, if_neg fun h => hc h.2, if_neg fun h => hc h.2]
    · have hlt : k < m + 1 ↔ k < m := by omega
      simp only [hlt]
      rw [← ih]
      by_cases hc : c m
      · rw [if_pos hc, Function.update_of_ne hkm]
      · rw [if_neg hc]

/-- A loop that keeps the last index with a property. -/
theorem foldl_range_last {p : ℕ → Prop} [DecidablePred p] {m n : ℕ} (hn : n < m) (hp : p n) (a : ℕ) :
    let l := (List.range m).foldl (fun a k => if p k then k else a) a
    l < m ∧ p l ∧ ∀ k < m, p k → k ≤ l := by
  induction m with
  | zero => exact absurd hn (Nat.not_lt_zero n)
  | succ m ih =>
    rw [List.range_succ, List.foldl_append, List.foldl_cons, List.foldl_nil]
    by_cases hm : p m
    · rw [if_pos hm]
      exact ⟨Nat.lt_succ_self m, hm, fun k hk _ => Nat.le_of_lt_succ hk⟩
    · rw [if_neg hm]
      have hnm : n ≠ m := by
        rintro rfl
        exact hm hp
      obtain ⟨hlt, hpl, hmax⟩ := ih (by omega)
      refine ⟨Nat.lt_succ_of_lt hlt, hpl, ?_⟩
      intro k hk hpk
      have hkm : k ≠ m := by
        rintro rfl
        exact hm hpk
      exact hmax k (by omega) hpk

/-- A loop over disjoint pieces, each of which changes the values in it by `g`. -/
theorem foldl_pieces [DecidableEq κ] (step : σ → ι → σ) (get : σ → κ → β) (cells : ι → Finset κ) (g : κ → β → β)
    (Inv : σ → Prop) {D : Set κ} {l : List ι} (hdisj : l.Pairwise fun i j => Disjoint (cells i) (cells j))
    (hstep : ∀ i ∈ l, ∀ st, Inv st → Inv (step st i) ∧
      ∀ c ∈ D, get (step st i) c = if c ∈ cells i then g c (get st c) else get st c) (st : σ) (hst : Inv st) :
    Inv (l.foldl step st) ∧ (∀ c ∈ D, (∃ i ∈ l, c ∈ cells i) → get (l.foldl step st) c = g c (get st c)) ∧
      ∀ c ∈ D, (∀ i ∈ l, c ∉ cells i) → get (l.foldl step st) c = get st c := by
  induction l generalizing st with
  | nil => exact ⟨hst, by simp, fun c _ _ => rfl⟩
  | cons i l ih =>
    rw [List.pairwise_cons] at hdisj
    obtain ⟨hinv, hget⟩ := hstep i List.mem_cons_self st hst
    obtain ⟨hend, hin, hout⟩ := ih hdisj.2 (fun j hj => hstep j (List.mem_cons_of_mem _ hj)) _ hinv
    rw [List.foldl_cons]
    refine ⟨hend, ?_, ?_⟩
    · intro c hc hmem
      by_cases hci : c ∈ cells i
      · have hrest : ∀ j ∈ l, c ∉ cells j := fun j hj hcj => Finset.disjoint_left.mp (hdisj.1 j hj) hci hcj
        rw [hout c hc hrest, hget c hc, if_pos hci]
      · have hrest : ∃ j ∈ l, c ∈ cells j := by
          obtain ⟨j, hj, hcj⟩ := hmem
          rcases List.mem_cons.mp hj with rfl | hj
          · exact absurd hcj hci
          · exact ⟨j, hj, hcj⟩
        rw [hin c hc hrest, hget c hc, if_neg hci]
    · intro c hc hno
      rw [hout c hc fun j hj => hno j (List.mem_cons_of_mem _ hj), hget c hc, if_neg (hno i List.mem_cons_self)]

end PointLoop

/-! Sites that are visited one after another, each of which adds those of its items that no site before it has. -/

namespace FirstVisit

variable {ι α : Type*} {items new : ι → List α} {l l' : List ι} {x : α} {c : ι}

def Adds (items new : ι → List α) (l : List ι) : Prop := ∀ pre c post, l = pre ++ c :: post →
  (new c).Nodup ∧ ∀ x, x ∈ new c ↔ x ∈ items c ∧ ∀ c' ∈ pre, x ∉ items c'

theorem Adds.of_append (h : Adds items new (l ++ l')) : Adds items new l := fun pre c post heq =>
  h pre c (post ++ l') (by rw [heq, List.append_assoc, List.cons_append])

theorem Adds.mem_items (h : Adds items new l) (hc : c ∈ l) (hx : x ∈ new c) : x ∈ items c := by
  obtain ⟨pre, post, heq⟩ := List.append_of_mem hc
  exact ((h pre c post heq).2 x).mp hx |>.1

/-- The first site that has an item adds it. -/
theorem Adds.exists_new (h : Adds items new l) (hc : c ∈ l) (hx : x ∈ items c) : ∃ c' ∈ l, x ∈ items c' ∧
    ∀ y, (∀ d ∈ l, y ∈ items d ↔ x ∈ items d) → y ∈ new c' := by
  classical
  obtain ⟨d, hd⟩ := Option.isSome_iff_exists.mp
    (List.find?_isSome.mpr ⟨c, hc, decide_eq_true (p := x ∈ items c) hx⟩ : (l.find? fun c => x ∈ items c).isSome)
  obtain ⟨hxd, pre, post, heq, hpre⟩ := List.find?_eq_some_iff_append.mp hd
  have hdl : d ∈ l := List.mem_of_find?_eq_some hd
  refine ⟨d, hdl, of_decide_eq_true hxd, fun y hy => ((h pre d post heq).2 y).mpr ?_⟩
  refine ⟨(hy d hdl).mpr (of_decide_eq_true hxd), fun c' hc' hyc' => ?_⟩
  have hxc' := (hy c' (heq ▸ List.mem_append_left _ hc')).mp hyc'
  simpa [hxc'] using hpre c' hc'

theorem Adds.mem_iff (h : Adds items new l) : x ∈ l.flatMap new ↔ ∃ c ∈ l, x ∈ items c := by
  rw [List.mem_flatMap]
  constructor
  · rintro ⟨c, hc, hx⟩
    exact ⟨c, hc, h.mem_items hc hx⟩
  · rintro ⟨c, hc, hx⟩
    obtain ⟨c', hc', -, hnew⟩ := h.exists_new hc hx
    exact ⟨c', hc', hnew x fun _ _ => Iff.rfl⟩

theorem Adds.nodup (h : Adds items new l) : (l.flatMap new).Nodup := by
  induction l using List.reverseRecOn with
  | nil => exact List.nodup_nil
  | append_singleton l c ih =>
    rw [List.flatMap_append, List.flatMap_singleton, List.nodup_append']
    obtain ⟨hnodup, hnew⟩ := h l c [] rfl
    refine ⟨ih h.of_append, hnodup, fun x hx hxc => ?_⟩
    obtain ⟨c', hc', hx'⟩ := h.of_append.mem_iff.mp hx
    exact ((hnew x).mp hxc).2 c' hc' hx'

end FirstVisit
