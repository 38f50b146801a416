import ParFlow.Keys.DatabaseDefs

/-! The entries of a nested map: a path of names and a value for each value that the map holds. The name for the
value of a map is not part of the path. What an assignment in a nested map does to its entries. -/

namespace ParFlow

open OrderedDict

variable {ν : Type*}

def PyValue.IsScalar : PyValue ν → Prop
  | .str _ | .number _ => True
  | _ => False

instance (v : PyValue ν) : Decidable v.IsScalar :=
  match v with
  | .str _ | .number _ => isTrue trivial
  | .none | .seq _ | .dict _ => isFalse id

/-- The names that a key is made of. -/
structure IsComponent (c : Str) : Prop where
  ne_nil : c ≠ []
  no_dot : '.' ∉ c
  not_private : isPrivateKey c = some false

theorem IsComponent.ne_valueKey {c : Str} (h : IsComponent c) : c ≠ valueKey := by
  rintro rfl
  exact absurd h.not_private (by decide)

/-- The maps that the export builds: scalars under components, and maps with items. -/
inductive CleanDict : Dict ν → Prop where
  | nil : CleanDict []
  | value {v rest} (hv : v.IsScalar) (hrest : CleanDict rest) : CleanDict ((valueKey, v) :: rest)
  | scalar {k v rest} (hk : IsComponent k) (hv : v.IsScalar) (hrest : CleanDict rest) : CleanDict ((k, v) :: rest)
  | dict {k items rest} (hk : IsComponent k) (hne : items ≠ []) (hitems : CleanDict items) (hrest : CleanDict rest) :
      CleanDict ((k, .dict items) :: rest)

theorem cleanDict_append {d e : Dict ν} : CleanDict (d ++ e) ↔ CleanDict d ∧ CleanDict e := by
  induction d with
  | nil => exact ⟨fun h => ⟨.nil, h⟩, And.right⟩
  | cons kv rest ih =>
    constructor
    · intro h
      cases h with
      | value hv hrest => exact ⟨.value hv (ih.mp hrest).1, (ih.mp hrest).2⟩
      | scalar hk hv hrest => exact ⟨.scalar hk hv (ih.mp hrest).1, (ih.mp hrest).2⟩
      | dict hk hne hitems hrest => exact ⟨.dict hk hne hitems (ih.mp hrest).1, (ih.mp hrest).2⟩
    · rintro ⟨h, he⟩
      cases h with
      | value hv hrest => exact .value hv (ih.mpr ⟨hrest, he⟩)
      | scalar hk hv hrest => exact .scalar hk hv (ih.mpr ⟨hrest, he⟩)
      | dict hk hne hitems hrest => exact .dict hk hne hitems (ih.mpr ⟨hrest, he⟩)

theorem cleanDict_cons {kv : Str × PyValue ν} {d : Dict ν} : CleanDict (kv :: d) ↔ CleanDict [kv] ∧ CleanDict d :=
  cleanDict_append (d := [kv])

theorem cleanDict_perm {d e : Dict ν} (h : d.Perm e) : CleanDict d ↔ CleanDict e := by
  induction h with
  | nil => rfl
  | cons kv _ ih => rw [cleanDict_cons, ih, ← cleanDict_cons]
  | swap kv kv' d =>
    have hcons : ∀ kv kv' : Str × PyValue ν, CleanDict (kv :: kv' :: d) ↔ CleanDict [kv] ∧ CleanDict [kv'] ∧ CleanDict d := by
      intro kv kv'
      rw [cleanDict_cons, cleanDict_cons (d := d)]
    rw [hcons, hcons]
    exact and_left_comm
  | trans _ _ ih ih' => exact ih.trans ih'

theorem CleanDict.of_get {d sub : Dict ν} (h : CleanDict d) {k : Str} (hk : get k d = some (.dict sub)) :
    IsComponent k ∧ sub ≠ [] ∧ CleanDict sub := by
  obtain ⟨before, after, rfl, -⟩ := exists_split_of_get hk
  cases (cleanDict_cons.mp (cleanDict_append.mp h).2).1 with
  | value hv => exact hv.elim
  | scalar _ hv => exact hv.elim
  | dict hk hne hitems _ => exact ⟨hk, hne, hitems⟩

theorem CleanDict.assign_dict {d sub : Dict ν} (h : CleanDict d) {k : Str} (hk : IsComponent k) (hne : sub ≠ [])
    (hsub : CleanDict sub) : CleanDict (assign k (.dict sub) d) := by
  have hitem : CleanDict [(k, .dict sub)] := .dict hk hne hsub .nil
  cases hlookup : get k d with
  | none =>
    rw [assign_of_notMem (notMem_of_get hlookup)]
    exact cleanDict_append.mpr ⟨h, hitem⟩
  | some w =>
    obtain ⟨before, after, rfl, hassign⟩ := exists_split_of_get hlookup
    rw [cleanDict_append, cleanDict_cons] at h
    rw [hassign, cleanDict_append, cleanDict_cons]
    exact ⟨h.1, hitem, h.2.2⟩

/-! ## Entries -/

abbrev Entries (ν : Type*) := Multiset (List Str × PyValue ν)

/-- The entries seen from a map that leads to them by the path. -/
def Entries.under (path : List Str) (es : Entries ν) : Entries ν := es.map fun e => (path ++ e.1, e.2)

@[simp] theorem Entries.under_nil (es : Entries ν) : es.under [] = es := by
  simp [Entries.under]

@[simp] theorem Entries.under_zero (path : List Str) : (0 : Entries ν).under path = 0 := rfl

theorem Entries.under_add (path : List Str) (es fs : Entries ν) : (es + fs).under path = es.under path + fs.under path :=
  Multiset.map_add _ _ _

theorem Entries.under_under (path path' : List Str) (es : Entries ν) :
    (es.under path').under path = es.under (path ++ path') := by
  simp [Entries.under, Multiset.map_map]

def entries (d : Dict ν) : Entries ν :=
  match d with
  | [] => 0
  | (key, value) :: rest =>
    (if key = valueKey then {([], value)}
      else
        match value with
        | .dict items => (entries items).under [key]
        | value => {([key], value)}) + entries rest
termination_by sizeOf d

/-- The entries of what a name stands for. -/
def entriesOf : Option (PyValue ν) → Entries ν
  | some (.dict items) => entries items
  | some value => {([], value)}
  | none => 0

@[simp] theorem entries_nil : entries ([] : Dict ν) = 0 := by
  rw [entries]

theorem entries_value (v : PyValue ν) (d : Dict ν) : entries ((valueKey, v) :: d) = {([], v)} + entries d := by
  cases v <;> simp [entries]

theorem entries_cons {k : Str} (hk : k ≠ valueKey) (v : PyValue ν) (d : Dict ν) :
    entries ((k, v) :: d) = (entriesOf (some v)).under [k] + entries d := by
  cases v <;> simp [entries, entriesOf, Entries.under, hk]

theorem entriesOf_scalar {v : PyValue ν} (h : v.IsScalar) : entriesOf (some v) = {([], v)} := by
  cases v with
  | dict => exact h.elim
  | _ => rfl

theorem entries_append (d e : Dict ν) : entries (d ++ e) = entries d + entries e := by
  induction d with
  | nil => simp
  | cons kv rest ih =>
    obtain ⟨k, v⟩ := kv
    by_cases hk : k = valueKey
    · subst hk
      rw [List.cons_append, entries_value, entries_value, ih, add_assoc]
    · rw [List.cons_append, entries_cons hk, entries_cons hk, ih, add_assoc]

theorem entries_perm {d e : Dict ν} (h : d.Perm e) : entries d = entries e := by
  have hcons : ∀ (kv : Str × PyValue ν) d, entries (kv :: d) = entries [kv] + entries d := fun kv d => entries_append [kv] d
  induction h with
  | nil => rfl
  | cons kv _ ih => rw [hcons, ih, ← hcons]
  | swap kv kv' d =>
    have hswap : ∀ kv kv' : Str × PyValue ν, entries (kv :: kv' :: d) = entries [kv] + (entries [kv'] + entries d) := by
      intro kv kv'
      rw [hcons, hcons kv' d]
    rw [hswap, hswap, add_left_comm]
  | trans _ _ ih ih' => exact ih.trans ih'

/-- The entries of the new value take the place of those of the old one. -/
theorem entries_assign (d : Dict ν) {k : Str} (hk : k ≠ valueKey) (v : PyValue ν) :
    entries (assign k v d) + (entriesOf (get k d)).under [k] = entries d + (entriesOf (some v)).under [k] := by
  cases hlookup : get k d with
  | none =>
    rw [assign_of_notMem (notMem_of_get hlookup), entries_append, entries_cons hk, entries_nil]
    simp [entriesOf]
  | some w =>
    obtain ⟨before, after, rfl, hassign⟩ := exists_split_of_get hlookup
    rw [hassign, entries_append, entries_append, entries_cons hk, entries_cons hk]
    abel

theorem CleanDict.exists_entry {d : Dict ν} (h : CleanDict d) (hne : d ≠ []) : ∃ e, e ∈ entries d := by
  induction h with
  | nil => exact absurd rfl hne
  | @value v rest hv _ _ => exact ⟨([], v), by simp [entries_value]⟩
  | @scalar k v rest hk hv _ _ =>
    exact ⟨([k], v), by simp [entries_cons hk.ne_valueKey, entriesOf_scalar hv, Entries.under]⟩
  | @dict k items rest hk hitems _ _ ih _ =>
    obtain ⟨e, he⟩ := ih hitems
    refine ⟨(k :: e.1, e.2), ?_⟩
    rw [entries_cons hk.ne_valueKey, Multiset.mem_add]
    exact .inl (Multiset.mem_map_of_mem _ he)

/-- Every name of a map is seen in its entries. -/
theorem CleanDict.exists_entry_of_key {d : Dict ν} (h : CleanDict d) {k : Str} (hk : k ∈ keys d) :
    ∃ e ∈ entries d, if k = valueKey then e.1 = [] else [k] <+: e.1 := by
  obtain ⟨⟨k, v⟩, hmem, rfl⟩ := List.mem_map.mp hk
  obtain ⟨before, after, rfl⟩ := List.append_of_mem hmem
  have hitem := (cleanDict_cons.mp (cleanDict_append.mp h).2).1
  obtain ⟨e, he⟩ := hitem.exists_entry (List.cons_ne_nil _ _)
  have hcons : entries ((k, v) :: after) = entries [(k, v)] + entries after := entries_append [(k, v)] after
  refine ⟨e, ?_, ?_⟩
  · rw [entries_append, hcons, Multiset.mem_add, Multiset.mem_add]
    exact .inr (.inl he)
  · by_cases hkv : k = valueKey
    · subst hkv
      rw [entries_value, entries_nil, add_zero, Multiset.mem_singleton] at he
      simp [he]
    · rw [entries_cons hkv, entries_nil, add_zero] at he
      obtain ⟨e', -, rfl⟩ := Multiset.mem_map.mp he
      simp [hkv]

end ParFlow

/-! What `get_or_create_dict` and the assignment after it do to the entries of a nested map. -/

namespace ParFlow

open OrderedDict

variable {ν : Type*}

/-! ## Changes in a nested map -/

/-- The container that `get_or_create_dict` returns. -/
def containerAt : Dict ν → List Str → Dict ν
  | d, [] => d
  | d, key :: rest =>
    match get key d with
    | some (.dict sub) => containerAt sub rest
    | _ => []

@[simp] theorem containerAt_empty (path : List Str) : containerAt ([] : Dict ν) path = [] := by
  cases path <;> rfl

/-- The entries that the keys of a flat map stand for. -/
def flatEntries (d : Dict ν) : Entries ν := Multiset.ofList (d.map fun kv => (kv.1.splitOn '.', kv.2))

theorem flatEntries_append (d e : Dict ν) : flatEntries (d ++ e) = flatEntries d + flatEntries e := by
  simp [flatEntries]

/-- The path leads to a map. -/
def IsDictAt : Dict ν → List Str → Prop
  | _, [] => True
  | d, key :: rest => ∃ sub, get key d = some (.dict sub) ∧ IsDictAt sub rest

/-- The map under a name with which `get_or_create_dict` goes on, and the overridden keys from then on. -/
structure Descends (before : List Str) (key : Str) (root overridden sub overridden' : Dict ν) : Prop where
  entries_eq : (entriesOf (get key root)).under (before ++ [key]) + flatEntries overridden =
    (entries sub).under (before ++ [key]) + flatEntries overridden'
  container : ∀ rest, containerAt root (key :: rest) = containerAt sub rest
  clean : CleanDict root → CleanDict sub
  fresh : ∀ e ∈ entries sub, dot.intercalate (before ++ [key] ++ e.1) ∉ keys overridden'
  moved : ∀ kv ∈ overridden', kv ∈ overridden ∨ kv.1 = dot.intercalate (before ++ [key])
  isDictAt : ∀ rest, IsDictAt root (key :: rest) → IsDictAt sub rest

theorem mem_entries_of_get {root : Dict ν} {key : Str} (hkey : key ≠ valueKey) {v : PyValue ν}
    (h : get key root = some v) {e : List Str × PyValue ν} (he : e ∈ entriesOf (some v)) : (key :: e.1, e.2) ∈ entries root := by
  obtain ⟨front, after, rfl, -⟩ := exists_split_of_get h
  rw [entries_append, entries_cons hkey, Multiset.mem_add, Multiset.mem_add]
  exact .inr (.inl (Multiset.mem_map_of_mem _ he))

/-- One round of the loop of `get_or_create_dict`. -/
theorem getOrCreateDict_cons (change : Dict ν → Dict ν) {before : List Str} {key : Str} (rest : List Str)
    {root overridden : Dict ν} (hbefore : ∀ c ∈ before ++ [key], '.' ∉ c) (hkey : key ≠ valueKey)
    (hfresh : ∀ e ∈ entries root, dot.intercalate (before ++ e.1) ∉ keys overridden) :
    ∃ sub overridden', Descends before key root overridden sub overridden' ∧
      getOrCreateDict change before (key :: rest) root overridden =
        (assign key (.dict (getOrCreateDict change (before ++ [key]) rest sub overridden').1) root,
          (getOrCreateDict change (before ++ [key]) rest sub overridden').2) := by
  cases hget : get key root with
  | none =>
    refine ⟨[], overridden, ?_, by rw [getOrCreateDict, hget]⟩
    constructor
    · rw [hget, entries_nil]
      rfl
    · intro rest
      rw [containerAt, hget, containerAt_empty]
    · exact fun _ => .nil
    · simp
    · exact fun kv hkv => .inl hkv
    · rintro rest ⟨sub, hsub, -⟩
      rw [hget] at hsub
      exact absurd hsub (by simp)
  | some w =>
    by_cases hdict : ∃ sub, w = .dict sub
    · obtain ⟨sub, rfl⟩ := hdict
      refine ⟨sub, overridden, ?_, by rw [getOrCreateDict, hget]⟩
      constructor
      · rw [hget]
        rfl
      · intro rest
        rw [containerAt, hget]
      · exact fun hclean => (hclean.of_get hget).2.2
      · intro e he
        rw [List.append_assoc]
        exact hfresh _ (mem_entries_of_get hkey hget he)
      · exact fun kv hkv => .inl hkv
      · rintro rest ⟨sub', hsub, hrest⟩
        rw [hget] at hsub
        cases hsub
        exact hrest
    · -- the value is moved aside
      have hw : entriesOf (some w) = {([], w)} := by
        cases w with
        | dict sub => exact absurd ⟨sub, rfl⟩ hdict
        | _ => rfl
      have hnew : dot.intercalate (before ++ [key]) ∉ keys overridden := by
        apply hfresh ([key], w)
        exact mem_entries_of_get hkey hget (by rw [hw]; exact Multiset.mem_singleton_self _)
      have hsplit : (dot.intercalate (before ++ [key])).splitOn '.' = before ++ [key] :=
        List.splitOn_intercalate '.' hbefore (by simp)
      refine ⟨[], assign (dot.intercalate (before ++ [key])) w overridden, ?_, ?_⟩
      · constructor
        · rw [hget, hw, assign_of_notMem hnew, flatEntries_append, entries_nil]
          simp [flatEntries, hsplit, Entries.under, add_comm]
        · intro rest
          rw [containerAt, hget, containerAt_empty]
          cases w with
          | dict sub => exact absurd ⟨sub, rfl⟩ hdict
          | _ => rfl
        · exact fun _ => .nil
        · simp
        · intro kv hkv
          exact (mem_assign hkv).imp_right (fun h => by rw [h])
        · rintro rest ⟨sub, hsub, -⟩
          rw [hget, Option.some.injEq] at hsub
          exact absurd ⟨sub, hsub⟩ hdict
      · cases w with
        | dict sub => exact absurd ⟨sub, rfl⟩ hdict
        | _ => rw [getOrCreateDict, hget]

/-- A change that adds one entry to the container adds it to the map, and the values that are moved aside
are found among the overridden keys. -/
theorem getOrCreateDict_entries {change : Dict ν → Dict ν} (before : List Str) {path added : List Str} {v : PyValue ν}
    {root overridden : Dict ν} (hbefore : ∀ c ∈ before, '.' ∉ c) (hpath : ∀ c ∈ path, IsComponent c)
    (hclean : CleanDict root) (hfresh : ∀ e ∈ entries root, dot.intercalate (before ++ e.1) ∉ keys overridden)
    (hchange : entries (change (containerAt root path)) = (added, v) ::ₘ entries (containerAt root path))
    (hchanged : CleanDict (change (containerAt root path)) ∧ change (containerAt root path) ≠ []) :
    let result := getOrCreateDict change before path root overridden
    (entries result.1).under before + flatEntries result.2 =
        (before ++ path ++ added, v) ::ₘ ((entries root).under before + flatEntries overridden) ∧
      CleanDict result.1 ∧ result.1 ≠ [] := by
  induction path generalizing before root overridden with
  | nil =>
    refine ⟨?_, hchanged⟩
    show (entries (change root)).under before + flatEntries overridden = _
    rw [containerAt] at hchange
    rw [hchange, List.append_nil, Entries.under, Multiset.map_cons, Multiset.cons_add]
    rfl
  | cons key rest ih =>
    have hkey : IsComponent key := hpath key List.mem_cons_self
    have hbefore' : ∀ c ∈ before ++ [key], '.' ∉ c := by
      intro c hc
      obtain hc | hc := List.mem_append.mp hc
      · exact hbefore c hc
      · rw [List.mem_singleton.mp hc]
        exact hkey.no_dot
    obtain ⟨sub, overridden', hdesc, heq⟩ := getOrCreateDict_cons change rest hbefore' hkey.ne_valueKey hfresh
    have hcont := hdesc.container rest
    obtain ⟨hentries, hsub, hne⟩ := ih _ hbefore' (fun c hc => hpath c (List.mem_cons_of_mem _ hc)) (hdesc.clean hclean)
      hdesc.fresh (hcont ▸ hchange) (hcont ▸ hchanged)
    rw [heq]
    generalize getOrCreateDict change (before ++ [key]) rest sub overridden' = r at hentries hsub hne ⊢
    refine ⟨?_, hclean.assign_dict hkey hne hsub, ?_⟩
    · have hassign := congrArg (Entries.under before) (entries_assign root hkey.ne_valueKey (.dict r.1))
      rw [Entries.under_add, Entries.under_add, Entries.under_under, Entries.under_under] at hassign
      have hshift : before ++ [key] ++ rest ++ added = before ++ key :: rest ++ added := by simp
      apply add_right_cancel (b := (entriesOf (get key root)).under (before ++ [key]))
      calc (entries (assign key (.dict r.1) root)).under before + flatEntries r.2 +
              (entriesOf (get key root)).under (before ++ [key])
          = ((entries (assign key (.dict r.1) root)).under before + (entriesOf (get key root)).under (before ++ [key])) +
              flatEntries r.2 := add_right_comm _ _ _
        _ = (entries root).under before + ((entries r.1).under (before ++ [key]) + flatEntries r.2) := by
            rw [hassign, add_assoc]
            rfl
        _ = (entries root).under before + (before ++ key :: rest ++ added, v) ::ₘ
              ((entriesOf (get key root)).under (before ++ [key]) + flatEntries overridden) := by
            rw [hentries, hdesc.entries_eq, hshift]
        _ = (before ++ key :: rest ++ added, v) ::ₘ ((entries root).under before + flatEntries overridden) +
              (entriesOf (get key root)).under (before ++ [key]) := by
            rw [Multiset.add_cons, Multiset.cons_add, add_assoc, add_comm (flatEntries overridden)]
    · intro hnil
      have hget := get_assign root key key (.dict r.1)
      rw [show assign key (.dict r.1) root = [] from hnil, if_pos rfl] at hget
      exact absurd hget (by simp [OrderedDict.get])

/-! ## Maps that stay maps -/

theorem isDictAt_of_start {d : Dict ν} {q path : List Str} (hq : q <+: path) (h : IsDictAt d path) : IsDictAt d q := by
  induction q generalizing d path with
  | nil => trivial
  | cons key rest ih =>
    obtain ⟨after, rfl⟩ := hq
    obtain ⟨sub, hsub, hrest⟩ := h
    exact ⟨sub, hsub, ih ⟨after, rfl⟩ hrest⟩

theorem isDictAt_assign {d : Dict ν} {k : Str} (hk : k ∉ keys d) (v : PyValue ν) {q : List Str} (h : IsDictAt d q) :
    IsDictAt (assign k v d) q := by
  cases q with
  | nil => trivial
  | cons key rest =>
    obtain ⟨sub, hsub, hrest⟩ := h
    refine ⟨sub, ?_, hrest⟩
    rw [get_assign, if_neg, hsub]
    rintro rfl
    exact hk (mem_keys_of_mem (mem_of_get hsub))

/-- The path of the container leads to a map, and so do the paths that did before and those of the values moved aside. -/
theorem getOrCreateDict_isDictAt {change : Dict ν → Dict ν} (before : List Str) {path : List Str} {root overridden : Dict ν}
    (hbefore : ∀ c ∈ before, '.' ∉ c) (hpath : ∀ c ∈ path, IsComponent c)
    (hfresh : ∀ e ∈ entries root, dot.intercalate (before ++ e.1) ∉ keys overridden)
    (hchange : ∀ q, IsDictAt (containerAt root path) q → IsDictAt (change (containerAt root path)) q) :
    let result := getOrCreateDict change before path root overridden
    IsDictAt result.1 path ∧ (∀ q, IsDictAt root q → IsDictAt result.1 q) ∧
      ∀ kv ∈ result.2, kv ∈ overridden ∨ ∃ q, q <+: path ∧ kv.1 = dot.intercalate (before ++ q) ∧ q ≠ [] := by
  induction path generalizing before root overridden with
  | nil => exact ⟨trivial, hchange, fun kv hkv => .inl hkv⟩
  | cons key rest ih =>
    have hkey : IsComponent key := hpath key List.mem_cons_self
    have hbefore' : ∀ c ∈ before ++ [key], '.' ∉ c := by
      intro c hc
      obtain hc | hc := List.mem_append.mp hc
      · exact hbefore c hc
      · rw [List.mem_singleton.mp hc]
        exact hkey.no_dot
    obtain ⟨sub, overridden', hdesc, heq⟩ := getOrCreateDict_cons change rest hbefore' hkey.ne_valueKey hfresh
    obtain ⟨hdict, hkeeps, hmoved⟩ := ih _ hbefore' (fun c hc => hpath c (List.mem_cons_of_mem _ hc)) hdesc.fresh
      (hdesc.container rest ▸ hchange)
    rw [heq]
    generalize getOrCreateDict change (before ++ [key]) rest sub overridden' = r at hdict hkeeps hmoved ⊢
    have hget : get key (assign key (.dict r.1) root) = some (.dict r.1) := by
      rw [get_assign, if_pos rfl]
    refine ⟨⟨r.1, hget, hdict⟩, ?_, ?_⟩
    · intro q hq
      cases q with
      | nil => trivial
      | cons k q =>
        by_cases hk : k = key
        · subst hk
          exact ⟨r.1, hget, hkeeps q (hdesc.isDictAt q hq)⟩
        · obtain ⟨sub', hsub', hrest'⟩ := hq
          refine ⟨sub', ?_, hrest'⟩
          show get k (assign key (.dict r.1) root) = _
          rw [get_assign, if_neg (Ne.symm hk), hsub']
    · intro kv hkv
      obtain hkv | ⟨q, hq, hkv, -⟩ := hmoved kv hkv
      · obtain hkv | hkv := hdesc.moved kv hkv
        · exact .inl hkv
        · exact .inr ⟨[key], by simp, hkv, by simp⟩
      · refine .inr ⟨key :: q, ?_, ?_, by simp⟩
        · simpa using hq
        · simpa using hkv

/-- Where the whole path leads to maps nothing is moved aside. -/
theorem getOrCreateDict_of_isDictAt (change : Dict ν → Dict ν) (before : List Str) {path : List Str} {root : Dict ν}
    (h : IsDictAt root path) (overridden : Dict ν) : (getOrCreateDict change before path root overridden).2 = overridden := by
  induction path generalizing before root with
  | nil => rfl
  | cons key rest ih =>
    obtain ⟨sub, hsub, hrest⟩ := h
    rw [getOrCreateDict, hsub]
    exact ih (before ++ [key]) hrest

theorem nodup_keys_getOrCreateDict {change : Dict ν → Dict ν} {before path : List Str} {root overridden : Dict ν}
    (hchange : ∀ d, (keys d).Nodup → (keys (change d)).Nodup) (h : (keys root).Nodup) :
    (keys (getOrCreateDict change before path root overridden).1).Nodup := by
  cases path with
  | nil => exact hchange root h
  | cons key rest =>
    unfold getOrCreateDict
    split <;> exact nodup_keys_assign h _ _

end ParFlow
