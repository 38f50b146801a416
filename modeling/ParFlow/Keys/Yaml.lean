import ParFlow.Keys.YamlEntries

/-! A flat map with scalar values comes back from its export as nested maps. -/

namespace ParFlow

open OrderedDict

variable {ν : Type*}

/-! ## Flat maps -/

theorem not_dot_mem_of_mem_splitOn {key c : Str} (h : c ∈ key.splitOn '.') : '.' ∉ c := by
  induction key generalizing c with
  | nil =>
    rw [List.splitOn_nil, List.mem_singleton] at h
    simp [h]
  | cons x xs ih =>
    rw [List.splitOn_cons_eq_if_modifyHead] at h
    split at h
    · obtain rfl | h := List.mem_cons.mp h
      · exact List.not_mem_nil
      · exact ih h
    · next hx =>
      obtain ⟨first, others, hsplit⟩ := List.exists_cons_of_ne_nil (List.splitOn_ne_nil '.' xs)
      rw [hsplit, List.modifyHead_cons] at h
      obtain rfl | h := List.mem_cons.mp h
      · have hfirst := ih (c := first) (by rw [hsplit]; exact List.mem_cons_self)
        rw [List.mem_cons, not_or]
        exact ⟨fun hdot => hx (by simp [← hdot]), hfirst⟩
      · exact ih (by rw [hsplit]; exact List.mem_cons_of_mem _ h)

theorem splitOn_injective : Function.Injective fun key : Str => key.splitOn '.' := by
  intro key key' h
  have hjoin := congrArg dot.intercalate h
  simpa only [dot, List.intercalate_splitOn] using hjoin

/-- A flat map with scalar values, under keys that are made of components without private names. -/
structure IsFlat (d : Dict ν) : Prop where
  nodup : (keys d).Nodup
  scalar : ∀ kv ∈ d, kv.2.IsScalar
  names : ∀ kv ∈ d, ∀ c ∈ kv.1.splitOn '.', c ≠ [] ∧ isPrivateKey c = some false

namespace IsFlat

variable {d : Dict ν}

theorem component (h : IsFlat d) {kv : Str × PyValue ν} (hkv : kv ∈ d) {c : Str} (hc : c ∈ kv.1.splitOn '.') :
    IsComponent c :=
  ⟨(h.names kv hkv c hc).1, not_dot_mem_of_mem_splitOn hc, (h.names kv hkv c hc).2⟩

theorem mono (h : IsFlat d) {e : Dict ν} (he : e.Sublist d) : IsFlat e where
  nodup := h.nodup.sublist (he.map Prod.fst)
  scalar kv hkv := h.scalar kv (he.subset hkv)
  names kv hkv := h.names kv (he.subset hkv)

theorem perm (h : IsFlat d) {e : Dict ν} (he : d.Perm e) : IsFlat e where
  nodup := (he.map Prod.fst).nodup_iff.mp h.nodup
  scalar kv hkv := h.scalar kv (he.mem_iff.mpr hkv)
  names kv hkv := h.names kv (he.mem_iff.mpr hkv)

/-- No path has two entries. -/
theorem ne_of_add (h : IsFlat d) {es fs : Entries ν} (hadd : es + fs = flatEntries d) {e f : List Str × PyValue ν}
    (he : e ∈ es) (hf : f ∈ fs) : e.1 ≠ f.1 := by
  have hnodup : ((flatEntries d).map Prod.fst).Nodup := by
    show (Multiset.map Prod.fst (Multiset.ofList _)).Nodup
    rw [Multiset.map_coe, Multiset.coe_nodup, List.map_map]
    have hkeys : d.map (Prod.fst ∘ fun kv => (kv.1.splitOn '.', kv.2)) = (keys d).map fun key => key.splitOn '.' := by
      simp [keys]
    rw [hkeys]
    exact h.nodup.map splitOn_injective
  rw [← hadd, Multiset.map_add, Multiset.nodup_add] at hnodup
  intro heq
  apply Multiset.disjoint_left.mp hnodup.2.2 (Multiset.mem_map_of_mem Prod.fst he)
  rw [heq]
  exact Multiset.mem_map_of_mem Prod.fst hf

end IsFlat

theorem mem_flatEntries {d : Dict ν} {e : List Str × PyValue ν} :
    e ∈ flatEntries d ↔ ∃ kv ∈ d, e = (kv.1.splitOn '.', kv.2) := by
  simp [flatEntries, eq_comm]

/-! ## The first loop of the export -/

theorem CleanDict.containerAt {root : Dict ν} (h : CleanDict root) (path : List Str) : CleanDict (containerAt root path) := by
  induction path generalizing root with
  | nil => exact h
  | cons key rest ih =>
    unfold ParFlow.containerAt
    split
    · next sub hsub => exact ih (h.of_get hsub).2.2
    · exact .nil

theorem mem_entries_of_containerAt {root : Dict ν} {path : List Str} (hpath : ∀ c ∈ path, IsComponent c)
    {e : List Str × PyValue ν} (he : e ∈ entries (containerAt root path)) : (path ++ e.1, e.2) ∈ entries root := by
  induction path generalizing root with
  | nil => exact he
  | cons key rest ih =>
    unfold containerAt at he
    split at he
    · next sub hsub =>
      have hsub' := ih (fun c hc => hpath c (List.mem_cons_of_mem _ hc)) he
      exact mem_entries_of_get (hpath key List.mem_cons_self).ne_valueKey hsub hsub'
    · rw [entries_nil] at he
      exact absurd he (Multiset.notMem_zero e)

/-- The nested map and the overridden keys, when the items of `d` have been put in. -/
structure ExportInv (d : Dict ν) (state : Dict ν × Dict ν) : Prop where
  entries : entries state.1 + flatEntries state.2 = flatEntries d
  clean : CleanDict state.1
  nodup : (keys state.1).Nodup
  dicts : ∀ kv ∈ state.2, IsDictAt state.1 (kv.1.splitOn '.')

theorem exportInv_nil : ExportInv ([] : Dict ν) ([], []) := by
  constructor
  · rw [entries_nil]
    rfl
  · exact .nil
  · exact List.nodup_nil
  · exact fun kv hkv => absurd hkv List.not_mem_nil

theorem ExportInv.fresh {d : Dict ν} {state : Dict ν × Dict ν} (h : ExportInv d state) (hflat : IsFlat d) :
    ∀ e ∈ ParFlow.entries state.1, dot.intercalate e.1 ∉ keys state.2 := by
  intro e he hkey
  obtain ⟨kv, hkv, heq⟩ := List.mem_map.mp hkey
  obtain ⟨kv', -, rfl⟩ : ∃ kv' ∈ d, e = (kv'.1.splitOn '.', kv'.2) := by
    apply mem_flatEntries.mp
    rw [← h.entries]
    exact Multiset.mem_add.mpr (.inl he)
  rw [dot, List.intercalate_splitOn] at heq
  apply hflat.ne_of_add h.entries he (mem_flatEntries.mpr ⟨kv, hkv, rfl⟩)
  rw [heq]

/-- A key comes after all keys that it is the start of. -/
theorem ExportInv.putKey {d : Dict ν} {state : Dict ν × Dict ν} {item : Str × PyValue ν} (h : ExportInv d state)
    (hflat : IsFlat (d ++ [item])) (hlast : ∀ kv ∈ d, ¬ item.1.splitOn '.' <+: kv.1.splitOn '.') :
    ExportInv (d ++ [item]) (putKey state item) := by
  have hmem : item ∈ d ++ [item] := by simp
  obtain ⟨path, last, hsplit⟩ : ∃ path last, item.1.splitOn '.' = path ++ [last] :=
    ⟨_, _, (List.dropLast_append_getLast (List.splitOn_ne_nil '.' item.1)).symm⟩
  have hput : ParFlow.putKey state item = getOrCreateDict (assign last item.2) [] path state.1 state.2 := by
    simp [ParFlow.putKey, hsplit]
  have hcomp : ∀ c ∈ path ++ [last], IsComponent c := fun c hc => hflat.component hmem (hsplit ▸ hc)
  have hpath : ∀ c ∈ path, IsComponent c := fun c hc => hcomp c (List.mem_append_left _ hc)
  have hlastc : IsComponent last := hcomp last (by simp)
  have hfresh := h.fresh (hflat.mono (List.sublist_append_left d [item]))
  have hcont := h.clean.containerAt path
  -- a name that is there already would start a key that was put in before
  have hnew : last ∉ keys (containerAt state.1 path) := by
    intro hkey
    obtain ⟨e, he, hstart⟩ := hcont.exists_entry_of_key hkey
    rw [if_neg hlastc.ne_valueKey] at hstart
    obtain ⟨kv, hkv, heq⟩ : ∃ kv ∈ d, (path ++ e.1, e.2) = (kv.1.splitOn '.', kv.2) := by
      apply mem_flatEntries.mp
      rw [← h.entries]
      exact Multiset.mem_add.mpr (.inl (mem_entries_of_containerAt hpath he))
    apply hlast kv hkv
    rw [hsplit, ← (Prod.mk.inj heq).1]
    exact (List.prefix_append_right_inj path).mpr hstart
  have hscalar : item.2.IsScalar := hflat.scalar item hmem
  have hchange : ParFlow.entries (assign last item.2 (containerAt state.1 path)) =
      ([last], item.2) ::ₘ ParFlow.entries (containerAt state.1 path) := by
    rw [assign_of_notMem hnew, entries_append, entries_cons hlastc.ne_valueKey, entriesOf_scalar hscalar, entries_nil,
      add_zero, add_comm]
    rfl
  have hchanged : CleanDict (assign last item.2 (containerAt state.1 path)) ∧
      assign last item.2 (containerAt state.1 path) ≠ [] := by
    rw [assign_of_notMem hnew]
    exact ⟨cleanDict_append.mpr ⟨hcont, .scalar hlastc hscalar .nil⟩, by simp⟩
  obtain ⟨hentries, hclean, -⟩ := getOrCreateDict_entries [] (by simp) hpath h.clean (by simpa using hfresh)
    hchange hchanged
  obtain ⟨hdict, hkeeps, hmoved⟩ := getOrCreateDict_isDictAt [] (by simp) hpath (by simpa using hfresh)
    (fun q hq => isDictAt_assign hnew item.2 hq)
  rw [hput]
  constructor
  · rw [Entries.under_nil, Entries.under_nil, h.entries] at hentries
    rw [hentries, flatEntries_append]
    simp [flatEntries, hsplit, add_comm]
  · exact hclean
  · exact nodup_keys_getOrCreateDict (fun d hd => nodup_keys_assign hd _ _) h.nodup
  · intro kv hkv
    obtain hkv | ⟨q, hq, hkey, hne⟩ := hmoved kv hkv
    · exact hkeeps _ (h.dicts kv hkv)
    · have hsplitq : kv.1.splitOn '.' = q := by
        rw [hkey, List.nil_append]
        exact List.splitOn_intercalate '.' (fun c hc => (hpath c (hq.subset hc)).no_dot) hne
      rw [hsplitq]
      exact isDictAt_of_start hq hdict

/-- The start of a text does not come after it. -/
theorem le_of_start {key key' : Str} (h : key <+: key') : key ≤ key' := by
  induction key generalizing key' with
  | nil => exact not_lt.mp (List.not_lt_nil _)
  | cons c rest ih =>
    obtain ⟨after, rfl⟩ := h
    exact List.cons_le_cons c (ih ⟨after, rfl⟩)

theorem intercalate_append {path after : List Str} (hpath : path ≠ []) (hafter : after ≠ []) :
    dot.intercalate (path ++ after) = dot.intercalate path ++ dot ++ dot.intercalate after := by
  induction path with
  | nil => exact absurd rfl hpath
  | cons c rest ih =>
    by_cases hrest : rest = []
    · rw [hrest, List.singleton_append, List.intercalate_cons_of_ne_nil hafter, List.intercalate_singleton]
    · rw [List.cons_append, List.intercalate_cons_of_ne_nil (by simp [hrest]), ih hrest,
        List.intercalate_cons_of_ne_nil hrest]
      simp only [List.append_assoc]

theorem intercalate_start {path path' : List Str} (h : path <+: path') : dot.intercalate path <+: dot.intercalate path' := by
  obtain ⟨after, rfl⟩ := h
  by_cases hpath : path = []
  · subst hpath
    exact List.nil_prefix
  · by_cases hafter : after = []
    · rw [hafter, List.append_nil]
    · rw [intercalate_append hpath hafter, List.append_assoc]
      exact List.prefix_append _ _

theorem exportInv_foldl {d todo : Dict ν} {state : Dict ν × Dict ν} (h : ExportInv d state) (hflat : IsFlat (d ++ todo))
    (hsorted : (keys (d ++ todo)).Pairwise (· < ·)) : ExportInv (d ++ todo) (todo.foldl putKey state) := by
  induction todo generalizing d state with
  | nil => simpa using h
  | cons item rest ih =>
    have hsplit : d ++ item :: rest = (d ++ [item]) ++ rest := by simp
    rw [hsplit] at hflat hsorted ⊢
    refine ih (h.putKey (hflat.mono (List.sublist_append_left _ _)) ?_) hflat hsorted
    intro kv hkv hprefix
    have hlt : kv.1 < item.1 := by
      rw [keys_append, keys_append, List.pairwise_append, List.pairwise_append] at hsorted
      exact hsorted.1.2.2 kv.1 (mem_keys_of_mem hkv) item.1 (by simp [keys])
    have hle := le_of_start (intercalate_start hprefix)
    rw [dot, List.intercalate_splitOn, List.intercalate_splitOn] at hle
    exact absurd hlt (not_lt.mpr hle)

/-! ## The second loop of the export -/

/-- The nested map when the overridden keys of `rest` are still to be pushed back. -/
structure PushInv (d rest root : Dict ν) : Prop where
  entries : entries root + flatEntries rest = flatEntries d
  clean : CleanDict root
  nodup : (keys root).Nodup
  dicts : ∀ kv ∈ rest, IsDictAt root (kv.1.splitOn '.')

theorem PushInv.pushValue {d rest root : Dict ν} {item : Str × PyValue ν} (h : PushInv d (item :: rest) root)
    (hflat : IsFlat d) : PushInv d rest (pushValue root item) := by
  have hitem : (item.1.splitOn '.', item.2) ∈ flatEntries (item :: rest) := mem_flatEntries.mpr ⟨item, List.mem_cons_self, rfl⟩
  obtain ⟨kv, hkv, heq⟩ : ∃ kv ∈ d, (item.1.splitOn '.', item.2) = (kv.1.splitOn '.', kv.2) := by
    apply mem_flatEntries.mp
    rw [← h.entries]
    exact Multiset.mem_add.mpr (.inr hitem)
  obtain ⟨hsplit, hvalue⟩ := Prod.mk.inj heq
  have hpath : ∀ c ∈ item.1.splitOn '.', IsComponent c := fun c hc => hflat.component hkv (hsplit ▸ hc)
  have hscalar : item.2.IsScalar := hvalue ▸ hflat.scalar kv hkv
  have hdict := h.dicts item List.mem_cons_self
  have hcont := h.clean.containerAt (item.1.splitOn '.')
  have hnew : valueKey ∉ keys (containerAt root (item.1.splitOn '.')) := by
    intro hkey
    obtain ⟨e, he, hstart⟩ := hcont.exists_entry_of_key hkey
    rw [if_pos rfl] at hstart
    have hroot := mem_entries_of_containerAt hpath he
    rw [hstart, List.append_nil] at hroot
    exact hflat.ne_of_add h.entries hroot hitem rfl
  have hchange : ParFlow.entries (assign valueKey item.2 (containerAt root (item.1.splitOn '.'))) =
      ([], item.2) ::ₘ ParFlow.entries (containerAt root (item.1.splitOn '.')) := by
    rw [assign_of_notMem hnew, entries_append, entries_value, entries_nil, add_zero, add_comm]
    rfl
  have hchanged : CleanDict (assign valueKey item.2 (containerAt root (item.1.splitOn '.'))) ∧
      assign valueKey item.2 (containerAt root (item.1.splitOn '.')) ≠ [] := by
    rw [assign_of_notMem hnew]
    exact ⟨cleanDict_append.mpr ⟨hcont, .value hscalar .nil⟩, by simp⟩
  have hfresh : ∀ e ∈ ParFlow.entries root, dot.intercalate ([] ++ e.1) ∉ keys ([] : Dict ν) := by simp
  obtain ⟨hentries, hclean, -⟩ := getOrCreateDict_entries [] (by simp) hpath h.clean hfresh hchange hchanged
  obtain ⟨-, hkeeps, -⟩ := getOrCreateDict_isDictAt [] (by simp) hpath hfresh
    (fun q hq => isDictAt_assign hnew item.2 hq)
  constructor
  · rw [getOrCreateDict_of_isDictAt _ _ hdict, Entries.under_nil, Entries.under_nil, List.nil_append, List.append_nil] at hentries
    have hnil : flatEntries ([] : Dict ν) = 0 := rfl
    rw [hnil, add_zero, add_zero] at hentries
    have hrest : flatEntries (item :: rest) = (item.1.splitOn '.', item.2) ::ₘ flatEntries rest := rfl
    rw [← h.entries, hrest, Multiset.add_cons, ← Multiset.cons_add, ← hentries]
    rfl
  · exact hclean
  · exact nodup_keys_getOrCreateDict (fun d hd => nodup_keys_assign hd _ _) h.nodup
  · intro kv hkv
    exact hkeeps _ (h.dicts kv (List.mem_cons_of_mem _ hkv))

theorem pushInv_foldl {d rest root : Dict ν} (h : PushInv d rest root) (hflat : IsFlat d) :
    PushInv d [] (rest.foldl pushValue root) := by
  induction rest generalizing root with
  | nil => exact h
  | cons item rest ih => exact ih (h.pushValue hflat)

/-! ## The import -/

theorem toStrDictFormat_scalar {v : PyValue ν} (h : v.IsScalar) : toStrDictFormat v = v := by
  cases v with
  | seq => exact h.elim
  | _ => rfl

theorem intercalate_ne_nil {path : List Str} (hpath : ∀ c ∈ path, IsComponent c) (hne : path ≠ []) : dot.intercalate path ≠ [] := by
  obtain ⟨c, rest, rfl⟩ := List.exists_cons_of_ne_nil hne
  have hstart : [c] <+: c :: rest := by simp
  have hprefix := intercalate_start hstart
  rw [List.intercalate_singleton] at hprefix
  intro hnil
  rw [hnil, List.prefix_nil] at hprefix
  exact (hpath c List.mem_cons_self).ne_nil hprefix

theorem fullQualifiedKey_eq {before : List Str} (hbefore : ∀ c ∈ before, IsComponent c) (key : Str) :
    (if dot.intercalate before ≠ [] then dot.intercalate before ++ dot ++ key else key) = dot.intercalate (before ++ [key]) := by
  by_cases hne : before = []
  · simp [hne]
  · rw [if_pos (intercalate_ne_nil hbefore hne), intercalate_append hne (by simp), List.intercalate_singleton]

/-- The items that the import assigns, one for each entry of the map, in the order of the walk. -/
theorem extractKeysFromDict_eq {d : Dict ν} (h : CleanDict d) {before : List Str} (hbefore : ∀ c ∈ before, IsComponent c)
    (htop : before = [] → valueKey ∉ keys d) :
    ∃ es : List (List Str × PyValue ν), Multiset.ofList es = entries d ∧
      ∀ dictToFill, extractKeysFromDict dictToFill d (dot.intercalate before) =
        some (es.foldl (fun fill e => assign (dot.intercalate (before ++ e.1)) e.2 fill) dictToFill) := by
  induction h generalizing before with
  | nil =>
    refine ⟨[], by rw [entries_nil]; rfl, ?_⟩
    intro fill
    rw [extractKeysFromDict]
    rfl
  | @value v rest hv hrest ih =>
    have hne : before ≠ [] := fun hnil => htop hnil (by simp [keys])
    obtain ⟨es, hes, hextract⟩ := ih hbefore (fun hnil => absurd hnil hne)
    refine ⟨([], v) :: es, ?_, ?_⟩
    · rw [entries_value, ← hes]
      rfl
    · intro fill
      have hname := intercalate_ne_nil hbefore hne
      rw [List.foldl_cons, List.append_nil, ← hextract]
      cases v <;> simp [extractKeysFromDict, hname]
  | @scalar k v rest hk hv hrest ih =>
    obtain ⟨es, hes, hextract⟩ := ih hbefore (fun hnil hkey => htop hnil (List.mem_cons_of_mem _ hkey))
    refine ⟨([k], v) :: es, ?_, ?_⟩
    · rw [entries_cons hk.ne_valueKey, entriesOf_scalar hv, ← hes]
      rfl
    · intro fill
      have hname := fullQualifiedKey_eq hbefore k
      have hformat := toStrDictFormat_scalar hv
      rw [List.foldl_cons, ← hextract]
      cases v with
      | none | seq _ | dict _ => exact hv.elim
      | str _ | number _ =>
        rw [extractKeysFromDict, if_neg (fun hkey => hk.ne_valueKey hkey.2)]
        simp only [hk.not_private, Option.bind_some, Bool.false_eq_true, if_false, hname, hformat]
  | @dict k items rest hk hne hitems hrest ihitems ih =>
    have hbefore' : ∀ c ∈ before ++ [k], IsComponent c := by
      intro c hc
      obtain hc | hc := List.mem_append.mp hc
      · exact hbefore c hc
      · rw [List.mem_singleton.mp hc]
        exact hk
    obtain ⟨es, hes, hextract⟩ := ih hbefore (fun hnil hkey => htop hnil (List.mem_cons_of_mem _ hkey))
    obtain ⟨fs, hfs, hextract'⟩ := ihitems hbefore' (fun hnil => absurd hnil (by simp))
    refine ⟨fs.map (fun e => ([k] ++ e.1, e.2)) ++ es, ?_, ?_⟩
    · rw [entries_cons hk.ne_valueKey, ← hes, ← Multiset.coe_add, ← Multiset.map_coe, hfs]
      rfl
    · intro fill
      rw [extractKeysFromDict, if_neg (fun hkey => hk.ne_valueKey hkey.2)]
      simp only [hk.not_private, Option.bind_some, Bool.false_eq_true, if_false, fullQualifiedKey_eq hbefore k, hextract',
        hextract, List.foldl_append, List.foldl_map]
      simp only [List.append_assoc]

/-- The import of the exported map gives back the flat map. -/
theorem flatten_writeDict (d : Dict ν) (hd : IsFlat d) : ∃ flat, flattenHierarchicalMap (writeDict d) = some flat ∧ flat.Perm d := by
  have hperm : (sortDict d).Perm d := sortKeys_perm hd.nodup
  have hsorted : IsFlat (sortDict d) := hd.perm hperm.symm
  have hexport : ExportInv (sortDict d) ((sortDict d).foldl putKey ([], [])) := by
    exact exportInv_foldl exportInv_nil hsorted (keys_sortKeys hd.nodup)
  generalize hstate : (sortDict d).foldl putKey ([], []) = state at hexport
  have hpush : PushInv (sortDict d) [] (state.2.foldl pushValue state.1) :=
    pushInv_foldl ⟨hexport.entries, hexport.clean, hexport.nodup, hexport.dicts⟩ hsorted
  have hwrite : writeDict d = sortDict (state.2.foldl pushValue state.1) := by
    simp only [writeDict, yamlObject, hstate]
  generalize state.2.foldl pushValue state.1 = root at hpush hwrite
  have hroot : (sortDict root).Perm root := sortKeys_perm hpush.nodup
  have hentries : entries (sortDict root) = flatEntries (sortDict d) := by
    rw [entries_perm hroot, ← hpush.entries]
    exact (add_zero _).symm
  have htop : valueKey ∉ keys (sortDict root) := by
    intro hkey
    obtain ⟨e, he, hstart⟩ := ((cleanDict_perm hroot).mpr hpush.clean).exists_entry_of_key hkey
    rw [if_pos rfl] at hstart
    rw [hentries] at he
    obtain ⟨kv, -, rfl⟩ := mem_flatEntries.mp he
    exact List.splitOn_ne_nil '.' kv.1 hstart
  have hnone : ∀ c ∈ ([] : List Str), IsComponent c := fun c hc => absurd hc List.not_mem_nil
  obtain ⟨es, hes, hextract⟩ := extractKeysFromDict_eq ((cleanDict_perm hroot).mpr hpush.clean) hnone (fun _ => htop)
  rw [hentries] at hes
  -- the keys of the entries are distinct, so that the import appends them one after the other
  have hitems : (es.map fun e => (dot.intercalate e.1, e.2)).Perm (sortDict d) := by
    have hmap := (Multiset.coe_eq_coe.mp hes).map fun e => (dot.intercalate e.1, e.2)
    rw [List.map_map] at hmap
    simpa only [Function.comp_def, dot, List.intercalate_splitOn, Prod.mk.eta, List.map_id'] using hmap
  refine ⟨es.map fun e => (dot.intercalate e.1, e.2), ?_, hitems.trans hperm⟩
  have hnodup : (keys ([] ++ es.map fun e => (dot.intercalate e.1, e.2))).Nodup :=
    (hitems.map Prod.fst).nodup_iff.mpr hsorted.nodup
  have hfold := foldl_assign hnodup
  rw [List.foldl_map, List.nil_append] at hfold
  rw [hwrite, ← hfold]
  exact hextract []

/-- Keys that are values and the start of other keys, at two depths and not in order. -/
def nestedKeys : Dict ℕ :=
  [("A.B".toList, .str "b".toList), ("A.B.C".toList, .number 3), ("A".toList, .number 1), ("A.B-1".toList, .number 2)]

theorem flatten_nestedKeys : IsFlat nestedKeys ∧ ∃ flat, flattenHierarchicalMap (writeDict nestedKeys) = some flat ∧ flat.Perm nestedKeys := by
  have hflat : IsFlat nestedKeys := ⟨by decide, by decide, by decide⟩
  exact ⟨hflat, flatten_writeDict nestedKeys hflat⟩

end ParFlow
