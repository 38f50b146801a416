import ParFlow.Lib.IntLoop
import ParFlow.Lib.PointLoop

/-! Buckets that lie one behind another in a table. Entries come in any order, and each one takes the next slot of its bucket. -/

namespace BucketSlots

open IntLoop PointLoop

variable {κ β γ : Type*} [DecidableEq κ]

/-- The entries with their slots; `next` is the first free slot of each bucket. -/
def place (next : κ → ℤ) : List (κ × β) → List (ℤ × β)
  | [] => []
  | e :: l => (next e.1, e.2) :: place (Function.update next e.1 (next e.1 + 1)) l

/-- How many entries a bucket takes. -/
def load (l : List (κ × β)) (k : κ) : ℕ := l.countP fun e => e.1 = k

/-- The table after all assignments. -/
def table (blank : β) (log : List (ℤ × β)) : ℤ → β := log.foldl (fun t w => Function.update t w.1 w.2) fun _ => blank

/-- Buckets with these starts and sizes do not overlap. -/
def Apart (start size : κ → ℤ) : Prop := ∀ k k', k ≠ k' → start k + size k ≤ start k' ∨ start k' + size k' ≤ start k

variable {next start size : κ → ℤ} {l : List (κ × β)} {e : κ × β} {k : κ} {blank : β}

theorem table_of_notMem {log : List (ℤ × β)} {s : ℤ} (h : s ∉ log.map Prod.fst) : table blank log s = blank :=
  foldl_update_of_notMem h _

theorem table_of_mem {log : List (ℤ × β)} (hnodup : (log.map Prod.fst).Nodup) {w : ℤ × β} (hw : w ∈ log) :
    table blank log w.1 = w.2 :=
  foldl_update_of_mem hnodup (fun _ _ _ _ _ => rfl) hw
    fun _ => blank

theorem load_concat : load (l ++ [e]) k = load l k + if e.1 = k then 1 else 0 := by
  unfold load
  rw [List.countP_append, List.countP_singleton]
  simp only [decide_eq_true_eq]

theorem load_concat_self : load (l ++ [e]) e.1 = load l e.1 + 1 := by rw [load_concat, if_pos rfl]

theorem load_le_concat : load l k ≤ load (l ++ [e]) k := by
  rw [load_concat]
  exact Nat.le_add_right _ _

theorem load_pos (h : e ∈ l) : 0 < load l e.1 := List.countP_pos_iff.mpr ⟨e, h, decide_eq_true rfl⟩

theorem place_concat : place next (l ++ [e]) = place next l ++ [(next e.1 + load l e.1, e.2)] := by
  induction l generalizing next with
  | nil => simp [place, load]
  | cons x l ih =>
    rw [List.cons_append, place, ih, place, List.cons_append]
    have hload : load (x :: l) e.1 = load l e.1 + if x.1 = e.1 then 1 else 0 := by
      unfold load
      rw [List.countP_cons]
      simp only [decide_eq_true_eq]
    rw [hload]
    by_cases h : x.1 = e.1
    · rw [h, Function.update_self, if_pos rfl]
      push_cast
      rw [add_assoc, add_comm 1]
    · rw [Function.update_of_ne (Ne.symm h), if_neg h, add_zero]

theorem place_length : (place next l).length = l.length := by
  induction l generalizing next with
  | nil => rfl
  | cons x l ih => rw [place, List.length_cons, ih, List.length_cons]

theorem place_snd : (place next l).map Prod.snd = l.map Prod.snd := by
  induction l generalizing next with
  | nil => rfl
  | cons x l ih => rw [place, List.map_cons, ih, List.map_cons]

theorem place_map (f : β → γ) : place next (l.map fun e => (e.1, f e.2)) = (place next l).map fun w => (w.1, f w.2) := by
  induction l generalizing next with
  | nil => rfl
  | cons x l ih => rw [List.map_cons, place, ih, place, List.map_cons]

theorem exists_of_mem_place {w : ℤ × β} (h : w ∈ place next l) :
    ∃ e ∈ l, next e.1 ≤ w.1 ∧ w.1 < next e.1 + load l e.1 := by
  induction l using List.reverseRecOn with
  | nil => exact absurd h List.not_mem_nil
  | append_singleton l x ih =>
    rw [place_concat, List.mem_append, List.mem_singleton] at h
    rcases h with h | rfl
    · obtain ⟨e, he, hlo, hhi⟩ := ih h
      have hle : load l e.1 ≤ load (l ++ [x]) e.1 := load_le_concat
      exact ⟨e, List.mem_append_left _ he, hlo, by omega⟩
    · refine ⟨x, List.mem_append_right _ (List.mem_singleton_self x), Int.le_add_of_nonneg_right (Int.natCast_nonneg _), ?_⟩
      rw [load_concat_self]
      push_cast
      omega

theorem load_le_of_concat {x : κ × β} (hload : ∀ e ∈ l ++ [x], (load (l ++ [x]) e.1 : ℤ) ≤ size e.1) :
    ∀ e ∈ l, (load l e.1 : ℤ) ≤ size e.1 := fun e he =>
  le_trans (Int.ofNat_le.mpr load_le_concat) (hload e (List.mem_append_left _ he))

section Bounded

variable (hapart : Apart start size) (hload : ∀ e ∈ l, (load l e.1 : ℤ) ≤ size e.1)
include hapart hload

/-- A free slot of one bucket is none of another one. -/
theorem slot_ne {w : ℤ × β} (hw : w ∈ place start l) {s : ℤ} (hlo : start k + load l k ≤ s) (hhi : s < start k + size k) :
    w.1 ≠ s := by
  obtain ⟨e, he, h1, h2⟩ := exists_of_mem_place hw
  have hle := hload e he
  rintro rfl
  by_cases hk : e.1 = k
  · subst hk
    omega
  · rcases hapart e.1 k hk with h | h
    · omega
    · omega

theorem place_nodup : ((place start l).map Prod.fst).Nodup := by
  induction l using List.reverseRecOn with
  | nil => exact List.nodup_nil
  | append_singleton l x ih =>
    have hpre := load_le_of_concat hload
    have hx := hload x (List.mem_append_right _ (List.mem_singleton_self x))
    rw [load_concat_self] at hx
    push_cast at hx
    rw [place_concat, List.map_append, List.map_singleton, List.nodup_append]
    refine ⟨ih hpre, List.nodup_singleton _, ?_⟩
    intro s hs s' hs'
    obtain ⟨w, hw, rfl⟩ := List.mem_map.mp hs
    rw [List.mem_singleton.mp hs']
    exact slot_ne hapart hpre hw (k := x.1) le_rfl (by omega)

/-- The filled part of a bucket holds its entries in their order. -/
theorem bucket_eq : (upto (start k) (start k + load l k)).map (table blank (place start l)) =
    (l.filter fun e => e.1 = k).map Prod.snd := by
  induction l using List.reverseRecOn generalizing k with
  | nil => simp [load, upto]
  | append_singleton l x ih =>
    have hpre := load_le_of_concat hload
    have hx := hload x (List.mem_append_right _ (List.mem_singleton_self x))
    rw [load_concat_self] at hx
    push_cast at hx
    have htable : table blank (place start (l ++ [x])) =
        Function.update (table blank (place start l)) (start x.1 + load l x.1) x.2 := by
      rw [place_concat]
      unfold table
      rw [List.foldl_append]
      rfl
    have hold : (upto (start k) (start k + load l k)).map (table blank (place start (l ++ [x]))) =
        (upto (start k) (start k + load l k)).map (table blank (place start l)) := by
      refine List.map_congr_left fun s hs => ?_
      rw [mem_upto] at hs
      rw [htable, Function.update_of_ne]
      rintro rfl
      by_cases hk : x.1 = k
      · subst hk
        omega
      · have hkl : 0 < load l k := by omega
        obtain ⟨e, he, hek⟩ := List.countP_pos_iff.mp hkl
        have hsize := hpre e he
        rw [of_decide_eq_true hek] at hsize
        rcases hapart x.1 k hk with h | h
        · omega
        · omega
    rw [List.filter_append, List.map_append, ← ih hpre, ← hold]
    by_cases hk : x.1 = k
    · subst hk
      rw [load_concat_self, Nat.cast_add, Nat.cast_one, ← add_assoc, upto_concat (by omega), List.map_append,
        List.map_singleton, htable, Function.update_self]
      simp
    · rw [load_concat, if_neg hk, add_zero, List.filter_cons_of_neg (by simpa using hk), List.filter_nil, List.map_nil,
        List.append_nil]

/-- The rest of a bucket is blank. -/
theorem bucket_rest {s : ℤ} (hlo : start k + load l k ≤ s) (hhi : s < start k + size k) :
    table blank (place start l) s = blank :=
  table_of_notMem fun hs => by
    obtain ⟨w, hw, heq⟩ := List.mem_map.mp hs
    exact slot_ne hapart hload hw hlo hhi heq

/-- What is found in the slots of a bucket are its entries. -/
theorem bucket_countP (hk : (load l k : ℤ) ≤ size k) {p : β → Bool} (hblank : p blank = false) :
    (upto (start k) (start k + size k)).countP (fun j => p (table blank (place start l) j)) =
      l.countP fun e => p e.2 && decide (e.1 = k) := by
  have hrest : (upto (start k + load l k) (start k + size k)).countP (fun j => p (table blank (place start l) j)) = 0 := by
    refine List.countP_eq_zero.mpr fun j hj => ?_
    obtain ⟨hlo, hhi⟩ := mem_upto.mp hj
    rw [bucket_rest hapart hload hlo hhi, hblank]
    exact Bool.false_ne_true
  have hbucket : ((upto (start k) (start k + load l k)).map (table blank (place start l))).countP p = _ :=
    congrArg (List.countP p) (bucket_eq hapart hload)
  rw [List.countP_map, List.countP_map, List.countP_filter] at hbucket
  rw [← upto_append (Int.le_add_of_nonneg_right (Int.natCast_nonneg (load l k))) (Int.add_le_add_left hk _), List.countP_append,
    hrest, Nat.add_zero]
  exact hbucket

/-- When there are as many entries as slots, every slot is taken exactly once. -/
theorem place_perm {n : ℤ} (hrange : ∀ e ∈ l, 0 ≤ start e.1 ∧ start e.1 + size e.1 ≤ n) (hn : n = l.length) :
    ((place start l).map Prod.fst).Perm (upto 0 n) := by
  refine (List.subperm_of_subset (place_nodup hapart hload) fun s hs => ?_).perm_of_length_le ?_
  · obtain ⟨w, hw, rfl⟩ := List.mem_map.mp hs
    obtain ⟨e, he, h1, h2⟩ := exists_of_mem_place hw
    have hle := hload e he
    have hr := hrange e he
    rw [mem_upto]
    omega
  · rw [length_upto, List.length_map, place_length, hn]
    omega

/-- The table then holds all entries. -/
theorem table_perm {n : ℤ} (hrange : ∀ e ∈ l, 0 ≤ start e.1 ∧ start e.1 + size e.1 ≤ n) (hn : n = l.length) :
    ((upto 0 n).map (table blank (place start l))).Perm (l.map Prod.snd) := by
  have hnodup := place_nodup hapart hload
  have hvalues : ((place start l).map Prod.fst).map (table blank (place start l)) = l.map Prod.snd := by
    rw [List.map_map, ← place_snd]
    exact List.map_congr_left fun w hw => table_of_mem hnodup hw
  rw [← hvalues]
  exact ((place_perm hapart hload hrange hn).map _).symm

end Bounded

end BucketSlots
