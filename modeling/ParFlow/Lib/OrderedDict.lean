import Mathlib

/-! Dictionaries that keep the order in which their keys were first assigned, as lists of items. -/

namespace OrderedDict

variable {κ β : Type*}

def keys (d : List (κ × β)) : List κ := d.map Prod.fst

@[simp] theorem keys_nil : keys ([] : List (κ × β)) = [] := rfl

@[simp] theorem keys_append (d e : List (κ × β)) : keys (d ++ e) = keys d ++ keys e := List.map_append

theorem mem_keys_of_mem {d : List (κ × β)} {kv : κ × β} (h : kv ∈ d) : kv.1 ∈ keys d :=
  List.mem_map_of_mem h

section Assign

variable [DecidableEq κ]

def get (k : κ) : List (κ × β) → Option β
  | [] => none
  | (k', v) :: rest => if k' = k then some v else get k rest

/-- An assignment keeps the place of a key that is there and appends a new one. -/
def assign (k : κ) (v : β) : List (κ × β) → List (κ × β)
  | [] => [(k, v)]
  | (k', v') :: rest => if k' = k then (k, v) :: rest else (k', v') :: assign k v rest

theorem assign_of_notMem {d : List (κ × β)} {k : κ} (h : k ∉ keys d) (v : β) : assign k v d = d ++ [(k, v)] := by
  induction d with
  | nil => rfl
  | cons kv rest ih =>
    obtain ⟨hne, hrest⟩ := not_or.mp (mt List.mem_cons.mpr h)
    rw [assign, if_neg (Ne.symm hne), ih hrest, List.cons_append]

/-- The first item with the key, and what an assignment makes of the items. -/
theorem exists_split_of_get {d : List (κ × β)} {k : κ} {w : β} (h : get k d = some w) :
    ∃ before after, d = before ++ (k, w) :: after ∧ ∀ v, assign k v d = before ++ (k, v) :: after := by
  induction d with
  | nil => exact absurd h (by simp [get])
  | cons kv rest ih =>
    obtain ⟨k', v'⟩ := kv
    unfold get at h
    split at h
    · next hk =>
      subst hk
      obtain rfl : v' = w := Option.some.inj h
      exact ⟨[], rest, rfl, fun v => by simp [assign]⟩
    · next hk =>
      obtain ⟨before, after, hsplit, hassign⟩ := ih h
      refine ⟨(k', v') :: before, after, by rw [hsplit, List.cons_append], ?_⟩
      intro v
      rw [assign, if_neg hk, hassign, List.cons_append]

theorem notMem_of_get {d : List (κ × β)} {k : κ} (h : get k d = none) : k ∉ keys d := by
  induction d with
  | nil => exact List.not_mem_nil
  | cons kv rest ih =>
    obtain ⟨k', v⟩ := kv
    unfold get at h
    split at h
    · exact absurd h (Option.some_ne_none v)
    · next hk =>
      rintro (_ | ⟨_, hmem⟩)
      · exact hk rfl
      · exact ih h hmem

theorem mem_of_get {d : List (κ × β)} {k : κ} {v : β} (h : get k d = some v) : (k, v) ∈ d := by
  obtain ⟨before, after, rfl, -⟩ := exists_split_of_get h
  simp

theorem get_assign (d : List (κ × β)) (k k' : κ) (v : β) :
    get k' (assign k v d) = if k = k' then some v else get k' d := by
  induction d with
  | nil => rfl
  | cons kv rest ih =>
    obtain ⟨k₀, v₀⟩ := kv
    unfold assign
    split
    · next h =>
      subst h
      simp only [get]
      split <;> rfl
    · next h =>
      simp only [get, ih]
      by_cases hk : k = k'
      · subst hk
        simp [h]
      · simp [hk]

theorem get_of_mem {d : List (κ × β)} (hd : (keys d).Nodup) {k : κ} {v : β} (h : (k, v) ∈ d) : get k d = some v := by
  induction d with
  | nil => exact absurd h List.not_mem_nil
  | cons kv rest ih =>
    obtain ⟨k₀, v₀⟩ := kv
    obtain ⟨hfresh, hrest⟩ := List.nodup_cons.mp hd
    unfold get
    obtain heq | hmem := List.mem_cons.mp h
    · obtain ⟨rfl, rfl⟩ := Prod.mk.inj heq
      exact if_pos rfl
    · rw [if_neg, ih hrest hmem]
      intro hk
      have hmem' := mem_keys_of_mem hmem
      rw [← hk] at hmem'
      exact hfresh hmem'

theorem keys_assign (d : List (κ × β)) (k : κ) (v : β) :
    keys (assign k v d) = if k ∈ keys d then keys d else keys d ++ [k] := by
  by_cases hk : k ∈ keys d
  · obtain ⟨w, hw⟩ : ∃ w, get k d = some w := by
      apply Option.ne_none_iff_exists'.mp
      intro hnone
      exact notMem_of_get hnone hk
    obtain ⟨before, after, hsplit, hassign⟩ := exists_split_of_get hw
    rw [if_pos hk, hassign, hsplit]
    simp [keys]
  · rw [if_neg hk, assign_of_notMem hk]
    simp [keys]

theorem nodup_keys_assign {d : List (κ × β)} (hd : (keys d).Nodup) (k : κ) (v : β) : (keys (assign k v d)).Nodup := by
  rw [keys_assign]
  split
  · exact hd
  · next hk => exact List.nodup_append.mpr ⟨hd, List.nodup_singleton k, by simpa using fun a ha => ne_of_mem_of_not_mem ha hk⟩

theorem mem_assign {d : List (κ × β)} {k : κ} {v : β} {kv : κ × β} (h : kv ∈ assign k v d) : kv ∈ d ∨ kv = (k, v) := by
  induction d with
  | nil => exact .inr (List.mem_singleton.mp h)
  | cons kv₀ rest ih =>
    unfold assign at h
    split at h
    · obtain rfl | hmem := List.mem_cons.mp h
      · exact .inr rfl
      · exact .inl (List.mem_cons_of_mem _ hmem)
    · obtain rfl | hmem := List.mem_cons.mp h
      · exact .inl List.mem_cons_self
      · exact (ih hmem).imp_left (List.mem_cons_of_mem _)

theorem mem_foldl_assign {items d : List (κ × β)} {kv : κ × β}
    (h : kv ∈ items.foldl (fun d kv => assign kv.1 kv.2 d) d) : kv ∈ d ∨ kv ∈ items := by
  induction items generalizing d with
  | nil => exact .inl h
  | cons item items ih =>
    rcases ih h with h | h
    · refine (mem_assign h).imp_right fun heq => ?_
      rw [heq]
      exact List.mem_cons_self
    · exact .inr (List.mem_cons_of_mem _ h)

/-- Assignments of distinct new keys append the items. -/
theorem foldl_assign {d items : List (κ × β)} (h : (keys (d ++ items)).Nodup) :
    items.foldl (fun d kv => assign kv.1 kv.2 d) d = d ++ items := by
  induction items generalizing d with
  | nil => simp
  | cons kv rest ih =>
    have hfresh : kv.1 ∉ keys d := by
      rw [keys_append, List.nodup_append] at h
      intro hk
      exact h.2.2 kv.1 hk kv.1 (mem_keys_of_mem List.mem_cons_self) rfl
    have hsplit : d ++ kv :: rest = (d ++ [(kv.1, kv.2)]) ++ rest := by simp
    rw [List.foldl_cons, assign_of_notMem hfresh, hsplit]
    apply ih
    rwa [← hsplit]

/-! ## Dictionaries in the order of their keys -/

end Assign

section Order

variable [LinearOrder κ]

/-- The same items with the keys in order. -/
def sortKeys (d : List (κ × β)) : List (κ × β) :=
  ((keys d).mergeSort fun a b => a ≤ b).filterMap fun k => (get k d).map fun v => (k, v)

theorem sortKeys_perm {d : List (κ × β)} (hd : (keys d).Nodup) : (sortKeys d).Perm d := by
  have hitems : (keys d).filterMap (fun k => (get k d).map fun v => (k, v)) = d := by
    unfold keys
    rw [List.filterMap_map]
    calc d.filterMap ((fun k => (get k d).map fun v => (k, v)) ∘ Prod.fst) = d.filterMap some := by
          apply List.filterMap_congr
          intro kv hkv
          simp [get_of_mem hd hkv]
      _ = d := List.filterMap_some
  have hperm := (List.mergeSort_perm (keys d) fun a b => decide (a ≤ b)).filterMap fun k => (get k d).map fun v => (k, v)
  rwa [hitems] at hperm

/-- A key comes after the keys below it. -/
theorem keys_sortKeys {d : List (κ × β)} (hd : (keys d).Nodup) : (keys (sortKeys d)).Pairwise (· < ·) := by
  have hkeys : keys (sortKeys d) = (keys d).mergeSort fun a b => a ≤ b := by
    unfold sortKeys
    rw [keys, List.map_filterMap]
    calc ((keys d).mergeSort fun a b => decide (a ≤ b)).filterMap
            (fun k => ((get k d).map fun v => (k, v)).map Prod.fst)
        = ((keys d).mergeSort fun a b => decide (a ≤ b)).filterMap some := by
          apply List.filterMap_congr
          intro k hk
          obtain ⟨kv, hkv, rfl⟩ := List.mem_map.mp (List.mem_mergeSort.mp hk)
          simp [get_of_mem hd hkv]
      _ = _ := List.filterMap_some
  have hle : ((keys d).mergeSort fun a b => decide (a ≤ b)).Pairwise (· ≤ ·) := List.pairwise_mergeSort' (· ≤ ·) (keys d)
  have hnodup : ((keys d).mergeSort fun a b => decide (a ≤ b)).Nodup := (List.mergeSort_perm _ _).nodup_iff.mpr hd
  rw [hkeys]
  exact (hle.and hnodup).imp fun h => lt_of_le_of_ne h.1 h.2

end Order

end OrderedDict
