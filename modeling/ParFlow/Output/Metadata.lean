import ParFlow.Output.MetadataDefs

/-! The range that `MetadataAddDynamicField` keeps ends with the last step, and `load_time_varying_pfb` reads it as
a range that ends before its end. -/

namespace ParFlow.Metadata

open CJson IntLoop

/-! ## Items and their names -/

section Items

variable {s t name field : Str} {items before after : List (Str × CJson)} {parent v v' : CJson} {change : CJson → CJson}
  {a : DynamicField}

theorem sameName_iff : sameName s t = true ↔ s.map Char.toLower = t.map Char.toLower := decide_eq_true_iff

theorem sameName_refl (s : Str) : sameName s s = true := sameName_iff.mpr rfl

/-- Only the item that is found changes. -/
theorem updateFirst_append (hbefore : ∀ kv ∈ before, sameName kv.1 name = false) (hs : sameName s name = true) :
    updateFirst name change (before ++ (s, v) :: after) = before ++ (s, change v) :: after := by
  induction before with
  | nil =>
    rw [List.nil_append, List.nil_append, updateFirst]
    exact if_pos hs
  | cons kv before ih =>
    obtain ⟨hkv, hbefore⟩ := List.forall_mem_cons.mp hbefore
    rw [List.cons_append, updateFirst, if_neg (by rw [hkv]; exact Bool.false_ne_true), ih hbefore]
    rfl

theorem updateFirst_names : (updateFirst name change items).map Prod.fst = items.map Prod.fst := by
  induction items with
  | nil => rfl
  | cons kv rest ih =>
    unfold updateFirst
    split
    · rfl
    · rw [List.map_cons, List.map_cons, ih]

/-- The names of the items of an object. -/
def names : CJson → List Str
  | .object items => items.map Prod.fst
  | _ => []

theorem getObjectItem_eq_none_iff : parent.getObjectItem name = none ↔ ∀ s ∈ names parent, sameName s name = false := by
  cases parent with
  | object items => simp [getObjectItem, names]
  | _ => simp [getObjectItem, names]

theorem item_eq_none_iff : parent.item name = none ↔ name ∉ names parent := by
  cases parent with
  | object items =>
    simp only [item, names, Option.map_eq_none_iff, List.find?_eq_none, List.mem_reverse, decide_eq_true_iff, List.mem_map]
    constructor
    · rintro h ⟨kv, hkv, hname⟩
      exact h kv hkv hname
    · intro h kv hkv hname
      exact h ⟨kv, hkv, hname⟩
  | _ => simp [item, names]

/-- A call keeps the names, or adds that of its field behind them. -/
theorem names_call (parent : CJson) (a : DynamicField) :
    names (metadataAddDynamicField parent a).2 = names parent ∨
      parent.getObjectItem a.fieldName = none ∧
        names (metadataAddDynamicField parent a).2 = names parent ++ [a.fieldName] := by
  have hadd : ∀ v, names (parent.addItemToObject a.fieldName v) = names parent ∨
      names (parent.addItemToObject a.fieldName v) = names parent ++ [a.fieldName] := by
    intro v
    cases parent with
    | object items => exact Or.inr List.map_append
    | _ => exact Or.inl rfl
  have hupdate : ∀ change, names (parent.updateObjectItem a.fieldName change) = names parent := by
    intro change
    cases parent with
    | object items => exact updateFirst_names
    | _ => rfl
  unfold metadataAddDynamicField
  split
  · next hnone =>
    split_ifs
    · exact Or.inl rfl
    · exact (hadd _).imp_right fun h => ⟨hnone, h⟩
  · split_ifs
    · exact Or.inl rfl
    · exact Or.inl rfl
    · exact Or.inl rfl
    · split
      · exact Or.inl (hupdate _)
      · exact Or.inl rfl

theorem item_append (hafter : ∀ kv ∈ after, kv.1 ≠ field) :
    (CJson.object (before ++ (field, v) :: after)).item field = some v := by
  have hfind : after.reverse.find? (fun kv => decide (kv.1 = field)) = none := by
    rw [List.find?_eq_none]
    intro kv hkv
    rw [decide_eq_true_iff]
    exact hafter kv (List.mem_reverse.mp hkv)
  unfold item
  dsimp only
  rw [List.reverse_append, List.reverse_cons, List.append_assoc, List.find?_append, hfind, Option.none_or,
    List.singleton_append, List.find?_cons, decide_eq_true rfl]
  rfl

/-- A step changes no entry whose name is another one for `cJSON_strcasecmp`. -/
theorem item_call (h : sameName name a.fieldName = false) :
    (metadataAddDynamicField parent a).2.item name = parent.item name := by
  have hne : a.fieldName ≠ name := by
    rintro rfl
    rw [sameName_refl] at h
    exact Bool.false_ne_true h.symm
  have hadd : ∀ v, (parent.addItemToObject a.fieldName v).item name = parent.item name := by
    intro v
    cases parent with
    | object items =>
      unfold addItemToObject item
      dsimp only
      rw [List.reverse_append, List.reverse_singleton, List.singleton_append, List.find?_cons_of_neg]
      rwa [decide_eq_true_iff]
    | _ => rfl
  have hupdate : ∀ change, (parent.updateObjectItem a.fieldName change).item name = parent.item name := by
    intro change
    cases parent with
    | object items =>
      clear hadd
      unfold updateObjectItem item
      dsimp only
      induction items with
      | nil => rfl
      | cons kv rest ih =>
        unfold updateFirst
        split
        · next hkv =>
          have hother : kv.1 ≠ name := by
            rintro rfl
            exact Bool.false_ne_true (h.symm.trans hkv)
          simp [hother]
        · simp only [List.reverse_cons, List.find?_append, Option.map_or, ih]
    | _ => rfl
  unfold metadataAddDynamicField
  split
  · split_ifs
    · rfl
    · exact hadd _
  · split_ifs
    · rfl
    · rfl
    · rfl
    · split
      · exact hupdate _
      · rfl

end Items

/-! ## The entry of a field with one component -/

section Entry

variable {field postfixName : Str} {parent v : CJson} {a first : DynamicField} {stop step : ℤ}

/-- The files of the field, with the last registered step. -/
def seriesEntry (first : DynamicField) (postfixName : Str) (stop : ℤ) : CJson :=
  .object [("file-series".toList, .string (fileSeries first.filePrefix postfixName)),
    ("time-range".toList, .array [.number first.step, .number stop])]

/-- The entry as the first call of a field makes it, with another end. -/
def fieldEntry (first : DynamicField) (postfixName : Str) (stop : ℤ) : CJson :=
  (newFieldItem first).updateObjectItem "data".toList fun _ => .array [seriesEntry first postfixName stop]

/-- The items before the data. -/
def fieldHeader (first : DynamicField) : List (Str × CJson) :=
  let units := match first.fieldUnits with
    | some text => if text = [] then [] else [("units".toList, CJson.string text)]
    | none => []
  [("type".toList, .string "pfb".toList), ("place".toList, .string first.fieldPlacement),
    ("domain".toList, .string first.fieldDomain), ("time-varying".toList, .jsonTrue)] ++ units

theorem not_data_of_mem_fieldHeader {kv : Str × CJson} (h : kv ∈ fieldHeader first) :
    sameName kv.1 "data".toList = false := by
  have hnames : (fieldHeader first).map Prod.fst ⊆ ["type".toList, "place".toList, "domain".toList,
      "time-varying".toList, "units".toList] := by
    unfold fieldHeader
    cases first.fieldUnits with
    | none => simp
    | some text =>
      dsimp only
      split_ifs <;> simp
  have hall : ∀ s ∈ ["type".toList, "place".toList, "domain".toList, "time-varying".toList, "units".toList],
      sameName s "data".toList = false := by decide
  exact hall _ (hnames (List.mem_map_of_mem h))

theorem newFieldItem_eq (hone : first.componentPostfixes = [postfixName]) :
    newFieldItem first = .object (fieldHeader first ++ [("data".toList, .array [seriesEntry first postfixName first.step])]) := by
  unfold newFieldItem fieldHeader fileDescr seriesEntry
  rw [hone]
  rfl

theorem fieldEntry_eq (hone : first.componentPostfixes = [postfixName]) :
    fieldEntry first postfixName stop =
      .object (fieldHeader first ++ [("data".toList, .array [seriesEntry first postfixName stop])]) := by
  unfold fieldEntry
  rw [newFieldItem_eq hone]
  exact congrArg CJson.object (updateFirst_append (fun _ => not_data_of_mem_fieldHeader) (sameName_refl _))

theorem getObjectItem_data (hone : first.componentPostfixes = [postfixName]) :
    (fieldEntry first postfixName stop).getObjectItem "data".toList = some (.array [seriesEntry first postfixName stop]) := by
  have hnone : (fieldHeader first).find? (fun kv => sameName kv.1 "data".toList) = none := by
    rw [List.find?_eq_none]
    intro kv hkv
    rw [not_data_of_mem_fieldHeader hkv]
    exact Bool.false_ne_true
  rw [fieldEntry_eq hone]
  unfold getObjectItem
  dsimp only
  rw [List.find?_append, hnone, Option.none_or, List.find?_cons, sameName_refl]
  rfl

/-- A step moves the end of the range. -/
theorem setEndTime_seriesEntry : setEndTime step (seriesEntry first postfixName stop) = seriesEntry first postfixName step := rfl

theorem update_fieldEntry (hone : first.componentPostfixes = [postfixName]) :
    (fieldEntry first postfixName stop).updateObjectItem "data".toList
        (fun _ => .array ([seriesEntry first postfixName stop].map (setEndTime step))) =
      fieldEntry first postfixName step := by
  rw [fieldEntry_eq hone, fieldEntry_eq hone, List.map_singleton, setEndTime_seriesEntry]
  exact congrArg CJson.object (updateFirst_append (fun _ => not_data_of_mem_fieldHeader) (sameName_refl _))

/-- The field is found under its own name, and there is no second item of that name. -/
def HasEntry (parent : CJson) (field : Str) (v : CJson) : Prop :=
  ∃ before after, parent = .object (before ++ (field, v) :: after) ∧
    (∀ kv ∈ before, sameName kv.1 field = false) ∧ ∀ kv ∈ after, kv.1 ≠ field

theorem HasEntry.getObjectItem_eq (h : HasEntry parent field v) : parent.getObjectItem field = some v := by
  obtain ⟨before, after, rfl, hbefore, -⟩ := h
  have hnone : before.find? (fun kv => sameName kv.1 field) = none := by
    rw [List.find?_eq_none]
    intro kv hkv
    rw [hbefore kv hkv]
    exact Bool.false_ne_true
  unfold getObjectItem
  dsimp only
  rw [List.find?_append, hnone, Option.none_or, List.find?_cons, sameName_refl]
  rfl

theorem HasEntry.item_eq (h : HasEntry parent field v) : parent.item field = some v := by
  obtain ⟨before, after, rfl, -, hafter⟩ := h
  exact item_append hafter

/-- A call for the field that is registered moves the end. -/
theorem HasEntry.registered (hone : first.componentPostfixes = [postfixName])
    (h : HasEntry parent field (fieldEntry first postfixName stop)) (hname : a.fieldName = field)
    (hret : (metadataAddDynamicField parent a).1 = 1) :
    HasEntry (metadataAddDynamicField parent a).2 field (fieldEntry first postfixName a.step) := by
  have hfound := h.getObjectItem_eq
  obtain ⟨before, after, rfl, hbefore, hafter⟩ := h
  have hupdate : ∀ change, (CJson.object (before ++ (field, fieldEntry first postfixName stop) :: after)).updateObjectItem
      field change = .object (before ++ (field, change (fieldEntry first postfixName stop)) :: after) := fun change =>
    congrArg CJson.object (updateFirst_append hbefore (sameName_refl field))
  unfold metadataAddDynamicField at hret ⊢
  rw [hname, hfound] at hret ⊢
  dsimp only at hret ⊢
  rw [getObjectItem_data hone] at hret ⊢
  split_ifs at hret ⊢
  · exact absurd hret zero_ne_one
  · exact absurd hret zero_ne_one
  · exact absurd hret zero_ne_one
  · split at hret
    · next hdata =>
      obtain rfl := CJson.array.inj (Option.some.inj hdata)
      dsimp only
      rw [hupdate, update_fieldEntry hone]
      exact ⟨before, after, rfl, hbefore, hafter⟩
    · exact absurd hret zero_ne_one

/-- A call for another field keeps the place of the entry. -/
theorem HasEntry.other (h : HasEntry parent field v) (hname : a.fieldName ≠ field) :
    ∃ v', HasEntry (metadataAddDynamicField parent a).2 field v' := by
  obtain ⟨before, after, rfl, hbefore, hafter⟩ := h
  have hobject : ∃ items, (metadataAddDynamicField (.object (before ++ (field, v) :: after)) a).2 = .object items := by
    unfold metadataAddDynamicField addItemToObject updateObjectItem
    dsimp only
    split
    · split_ifs
      · exact ⟨_, rfl⟩
      · exact ⟨_, rfl⟩
    · split_ifs
      · exact ⟨_, rfl⟩
      · exact ⟨_, rfl⟩
      · exact ⟨_, rfl⟩
      · split
        · exact ⟨_, rfl⟩
        · exact ⟨_, rfl⟩
  obtain ⟨items, hitems⟩ := hobject
  have hsplit : ∃ tail, items.map Prod.fst = before.map Prod.fst ++ field :: tail ∧ ∀ s ∈ tail, s ≠ field := by
    have hold : ∀ s ∈ after.map Prod.fst, s ≠ field := by
      intro s hs
      obtain ⟨kv, hkv, rfl⟩ := List.mem_map.mp hs
      exact hafter kv hkv
    rcases names_call (.object (before ++ (field, v) :: after)) a with hnames | ⟨-, hnames⟩
    · rw [hitems] at hnames
      refine ⟨after.map Prod.fst, ?_, hold⟩
      rw [show items.map Prod.fst = _ from hnames]
      simp [names]
    · rw [hitems] at hnames
      refine ⟨after.map Prod.fst ++ [a.fieldName], ?_, ?_⟩
      · rw [show items.map Prod.fst = _ from hnames]
        simp [names]
      · intro s hs
        rcases List.mem_append.mp hs with hs | hs
        · exact hold s hs
        · rw [List.mem_singleton.mp hs]
          exact hname
  obtain ⟨tail, hsplit, htail⟩ := hsplit
  obtain ⟨before', rest, rfl, hbefore', hrest⟩ := List.map_eq_append_iff.mp hsplit
  obtain ⟨⟨s, v'⟩, after', rfl, rfl, hafter'⟩ := List.map_eq_cons_iff.mp hrest
  refine ⟨v', before', after', hitems, ?_, ?_⟩
  · intro kv hkv
    have hmem : kv.1 ∈ before.map Prod.fst := hbefore' ▸ List.mem_map_of_mem hkv
    obtain ⟨kv', hkv', hfst⟩ := List.mem_map.mp hmem
    rw [← hfst]
    exact hbefore kv' hkv'
  · intro kv hkv
    exact htail kv.1 (hafter' ▸ List.mem_map_of_mem hkv)

/-- The first call makes the entry, when no name is taken for that of the field. -/
theorem hasEntry_newField (hone : a.componentPostfixes = [postfixName]) (hfresh : parent.getObjectItem a.fieldName = none)
    {items : List (Str × CJson)} (hparent : parent = .object items) :
    HasEntry (metadataAddDynamicField parent a).2 a.fieldName (fieldEntry a postfixName a.step) := by
  have hnames := getObjectItem_eq_none_iff.mp hfresh
  subst hparent
  unfold metadataAddDynamicField
  rw [hfresh]
  dsimp only
  rw [if_neg (by rw [hone]; exact List.cons_ne_nil _ _), fieldEntry_eq hone, ← newFieldItem_eq hone]
  refine ⟨items, [], rfl, ?_, fun kv hkv => absurd hkv List.not_mem_nil⟩
  intro kv hkv
  exact hnames kv.1 (List.mem_map_of_mem hkv)

end Entry

/-! ## Runs -/

section Runs

variable {field postfixName : Str} {parent : CJson} {a first : DynamicField} {calls : List DynamicField} {stop start : ℤ}

def callsFor (field : Str) (calls : List DynamicField) : List DynamicField := calls.filter fun a => a.fieldName = field

/-- Every call for the field returns one. -/
def Registered (parent : CJson) (field : Str) (calls : List DynamicField) : Prop :=
  ∀ before a after, calls = before ++ a :: after → a.fieldName = field →
    (metadataAddDynamicField (addDynamicFields parent before) a).1 = 1

/-- No call changes the entry of another field. -/
def KeepsOthers (parent : CJson) (calls : List DynamicField) : Prop :=
  ∀ before a after, calls = before ++ a :: after → ∀ name, name ≠ a.fieldName →
    (metadataAddDynamicField (addDynamicFields parent before) a).2.item name = (addDynamicFields parent before).item name

theorem Registered.tail (h : Registered parent field (a :: calls)) :
    Registered (metadataAddDynamicField parent a).2 field calls := fun before b after hcalls =>
  h (a :: before) b after (by rw [hcalls]; rfl)

theorem KeepsOthers.tail (h : KeepsOthers parent (a :: calls)) : KeepsOthers (metadataAddDynamicField parent a).2 calls :=
  fun before b after hcalls => h (a :: before) b after (by rw [hcalls]; rfl)

theorem callsFor_cons_of_eq (h : a.fieldName = field) : callsFor field (a :: calls) = a :: callsFor field calls :=
  List.filter_cons_of_pos (decide_eq_true h)

theorem callsFor_cons_of_ne (h : a.fieldName ≠ field) : callsFor field (a :: calls) = callsFor field calls :=
  List.filter_cons_of_neg (by rwa [decide_eq_true_iff])

/-- Once the entry is there, its range ends with the last step. -/
theorem HasEntry.run (hone : first.componentPostfixes = [postfixName]) (hreg : Registered parent field calls)
    (hkeep : KeepsOthers parent calls) (h : HasEntry parent field (fieldEntry first postfixName stop)) :
    HasEntry (addDynamicFields parent calls) field
      (fieldEntry first postfixName (((callsFor field calls).map DynamicField.step).getLast?.getD stop)) := by
  induction calls generalizing parent stop with
  | nil => exact h
  | cons a calls ih =>
    by_cases hname : a.fieldName = field
    · have hstep := h.registered hone hname (hreg [] a calls rfl hname)
      have hrun := ih hreg.tail hkeep.tail hstep
      rw [callsFor_cons_of_eq hname, List.map_cons, List.getLast?_cons, Option.getD_some]
      exact hrun
    · -- the entry that the other call leaves is the same one
      obtain ⟨v, hother⟩ := h.other hname
      have hsame := hkeep [] a calls rfl field (Ne.symm hname)
      have hv : v = fieldEntry first postfixName stop := by
        apply Option.some.inj
        rw [← hother.item_eq, ← h.item_eq]
        exact hsame
      rw [callsFor_cons_of_ne hname]
      exact ih hreg.tail hkeep.tail (hv ▸ hother)

/-- A name that is taken for that of the field hides it for good. -/
theorem item_of_hidden (calls : List DynamicField) (hno : field ∉ names parent) (hfound : parent.getObjectItem field ≠ none) :
    (addDynamicFields parent calls).item field = none := by
  induction calls generalizing parent with
  | nil => exact item_eq_none_iff.mpr hno
  | cons a calls ih =>
    have hnames := names_call parent a
    have hfound' : (metadataAddDynamicField parent a).2.getObjectItem field ≠ none := by
      rw [Ne, getObjectItem_eq_none_iff] at hfound ⊢
      intro hall
      apply hfound
      rcases hnames with hnames | ⟨-, hnames⟩
      · rwa [hnames] at hall
      · rw [hnames] at hall
        exact fun s hs => hall s (List.mem_append_left _ hs)
    apply ih _ hfound'
    rcases hnames with hnames | ⟨hnone, hnames⟩
    · rwa [hnames]
    · rw [hnames, List.mem_append, List.mem_singleton]
      rintro (hmem | rfl)
      · exact hno hmem
      · exact hfound hnone

/-- What is not an object stays as it is. -/
theorem addDynamicFields_of_not_object (h : ∀ items, parent ≠ .object items) : addDynamicFields parent calls = parent := by
  induction calls with
  | nil => rfl
  | cons a calls ih =>
    have hcall : (metadataAddDynamicField parent a).2 = parent := by
      unfold metadataAddDynamicField
      cases parent with
      | object items => exact absurd rfl (h items)
      | _ =>
        dsimp only [getObjectItem, addItemToObject]
        split_ifs <;> rfl
    exact (congrArg (fun parent => addDynamicFields parent calls) hcall).trans ih

/-- From a state without the field: either the last step ends the range, or the entry is hidden. -/
theorem run_of_absent (hone : ∀ first ∈ (callsFor field calls).head?, first.componentPostfixes = [postfixName])
    (hreg : Registered parent field calls) (hkeep : KeepsOthers parent calls) (hno : field ∉ names parent) :
    (addDynamicFields parent calls).item field = none ∨ ∃ first ∈ (callsFor field calls).head?,
      (addDynamicFields parent calls).item field = some (fieldEntry first postfixName
        (((callsFor field calls).map DynamicField.step).getLast?.getD first.step)) := by
  induction calls generalizing parent with
  | nil => exact Or.inl (item_eq_none_iff.mpr hno)
  | cons a calls ih =>
    by_cases hname : a.fieldName = field
    · by_cases hfound : parent.getObjectItem field = none
      · have hpostfix := hone a (by rw [callsFor_cons_of_eq hname]; rfl)
        by_cases hobject : ∃ items, parent = .object items
        · obtain ⟨items, hparent⟩ := hobject
          have hentry := hasEntry_newField hpostfix (hname.symm ▸ hfound) hparent
          rw [hname] at hentry
          have hrun := (hentry.run hpostfix hreg.tail hkeep.tail).item_eq
          rw [callsFor_cons_of_eq hname]
          refine Or.inr ⟨a, rfl, ?_⟩
          rw [List.map_cons, List.getLast?_cons, Option.getD_some]
          exact hrun
        · left
          rw [addDynamicFields_of_not_object (not_exists.mp hobject)]
          exact item_eq_none_iff.mpr hno
      · exact Or.inl (item_of_hidden (a :: calls) hno hfound)
    · have hno' : field ∉ names (metadataAddDynamicField parent a).2 := by
        rcases names_call parent a with hnames | ⟨-, hnames⟩
        · rwa [hnames]
        · rw [hnames, List.mem_append, List.mem_singleton]
          rintro (hmem | rfl)
          · exact hno hmem
          · exact hname rfl
      rw [callsFor_cons_of_ne hname] at hone ⊢
      exact ih hone hreg.tail hkeep.tail hno'

end Runs

/-! ## Reading the range -/

section Reading

variable {postfixName baseDir : Str} {first : DynamicField} {stop n : ℤ} {pathExists : Str → Bool} {files : List Str}
  {timeIdx : List ℤ}

theorem head?_upto {lo hi : ℤ} (h : lo < hi) : (upto lo hi).head? = some lo := by
  obtain ⟨k, hk⟩ : ∃ k, (hi - lo).toNat = k + 1 := ⟨(hi - lo).toNat - 1, by omega⟩
  unfold upto
  rw [hk, List.range_succ_eq_map, List.map_cons, List.head?_cons, Nat.cast_zero, add_zero]

theorem getLast?_upto {lo hi : ℤ} (h : lo < hi) : (upto lo hi).getLast? = some (hi - 1) := by
  obtain ⟨k, hk⟩ : ∃ k, (hi - lo).toNat = k + 1 := ⟨(hi - lo).toNat - 1, by omega⟩
  have hlast : lo + (k : ℤ) = hi - 1 := by omega
  unfold upto
  rw [hk, List.range_succ, List.map_append, List.map_singleton, List.getLast?_concat, hlast]

theorem length_of_mapM {f : ℤ → Option Str} (h : timeIdx.mapM f = some files) : files.length = timeIdx.length := by
  induction timeIdx generalizing files with
  | nil =>
    rw [← Option.some.inj h]
    rfl
  | cons n rest ih =>
    rw [List.mapM_cons] at h
    obtain ⟨file, -, h⟩ := Option.bind_eq_some_iff.mp h
    obtain ⟨others, hothers, h⟩ := Option.bind_eq_some_iff.mp h
    rw [← Option.some.inj h, List.length_cons, ih hothers, List.length_cons]

theorem mapM_of_forall {f : ℤ → Option Str} {g : ℤ → Str} (h : ∀ n ∈ timeIdx, f n = some (g n)) :
    timeIdx.mapM f = some (timeIdx.map g) := by
  induction timeIdx with
  | nil => rfl
  | cons n rest ih =>
    rw [List.mapM_cons, h n List.mem_cons_self, ih fun m hm => h m (List.mem_cons_of_mem n hm)]
    rfl

theorem seriesFiles_length {fileTemplate : Str} (h : seriesFiles fileTemplate timeIdx = some files) :
    files.length = timeIdx.length := by
  unfold seriesFiles at h
  dsimp only at h
  split at h
  · exact length_of_mapM h
  · exact absurd h.symm (Option.some_ne_none files)

/-- The template of a name that fits the buffer gives back the names that are written. -/
theorem seriesFiles_fileSeries (filePrefix : Str) (hfits : filePrefix.length + postfixName.length + 10 ≤ 2046) :
    seriesFiles (fileSeries filePrefix postfixName) timeIdx = some (timeIdx.map (writtenFile filePrefix postfixName)) := by
  have htext : fileSeries filePrefix postfixName =
      (filePrefix ++ dot ++ postfixName) ++ '.' :: ("%05d".toList ++ '.' :: "pfb".toList) := by
    unfold fileSeries snprintf
    rw [List.take_of_length_le]
    · simp [dot]
    · simp only [List.length_append]
      show filePrefix.length + 1 + postfixName.length + 9 ≤ 2046
      omega
  have hpieces : (fileSeries filePrefix postfixName).splitOn '.' =
      (filePrefix ++ dot ++ postfixName).splitOn '.' ++ ["%05d".toList, "pfb".toList] := by
    have htail : ("%05d".toList ++ '.' :: "pfb".toList).splitOn '.' = ["%05d".toList, "pfb".toList] := by
      rw [List.splitOn_append_cons_self_of_not_mem (by decide), List.splitOn_eq_singleton (by decide)]
    rw [htext, List.splitOn_append_cons_self, htail]
  unfold seriesFiles
  rw [hpieces]
  dsimp only
  rw [List.length_append, show ["%05d".toList, "pfb".toList].length = 2 from rfl, Nat.add_sub_cancel, List.drop_left,
    List.take_left]
  dsimp only
  apply mapM_of_forall
  intro n _
  have hbase : dot.intercalate ((filePrefix ++ dot ++ postfixName).splitOn '.') = filePrefix ++ dot ++ postfixName :=
    List.intercalate_splitOn '.'
  have hpercent : percent "%05d".toList n = some (zeroPadded 5 n) := by
    show some ([] ++ zeroPadded 5 n ++ []) = _
    rw [List.append_nil, List.nil_append]
  rw [hbase, hpercent]
  unfold writtenFile
  simp only [Option.map_some, List.append_assoc]

/-- The range is taken without its end. -/
theorem allFiles_fieldEntry (hone : first.componentPostfixes = [postfixName]) :
    allFiles (fieldEntry first postfixName stop) =
      if first.step < stop then seriesFiles (fileSeries first.filePrefix postfixName) (upto first.step stop) else none := by
  have hdata : (fieldEntry first postfixName stop).item "data".toList =
      some (.array [seriesEntry first postfixName stop]) := by
    rw [fieldEntry_eq hone]
    exact item_append fun kv hkv => absurd hkv List.not_mem_nil
  unfold allFiles
  rw [hdata]
  show (upto first.step stop).getLast?.bind _ = _
  split_ifs with h
  · rw [getLast?_upto h]
    rfl
  · rw [upto_eq_nil (not_lt.mp h)]
    rfl

/-- The last file of the range is not opened, and none when the field has been dumped once. -/
theorem loadTimeVaryingPfb_fieldEntry (hone : first.componentPostfixes = [postfixName])
    (hfits : first.filePrefix.length + postfixName.length + 10 ≤ 2046)
    (hexists : pathExists (writtenFile first.filePrefix postfixName first.step)) :
    loadTimeVaryingPfb pathExists baseDir (fieldEntry first postfixName stop) =
      if first.step < stop then some ((upto first.step stop).map (writtenFile first.filePrefix postfixName)) else none := by
  unfold loadTimeVaryingPfb
  rw [allFiles_fieldEntry hone]
  split_ifs with h
  · have hhead : ((upto first.step stop).map (writtenFile first.filePrefix postfixName)).head? =
        some (writtenFile first.filePrefix postfixName first.step) := by
      rw [List.head?_map, head?_upto h]
      rfl
    rw [seriesFiles_fileSeries _ hfits]
    show Option.bind (List.head? _) _ = _
    rw [hhead]
    exact if_pos hexists
  · rfl

theorem loadTimeVaryingPfb_length (hone : first.componentPostfixes = [postfixName])
    (h : loadTimeVaryingPfb pathExists baseDir (fieldEntry first postfixName stop) = some files) :
    (files.length : ℤ) = stop - first.step ∧ first.step < stop := by
  unfold loadTimeVaryingPfb at h
  obtain ⟨names, hnames, h⟩ := Option.bind_eq_some_iff.mp h
  obtain ⟨head, -, h⟩ := Option.bind_eq_some_iff.mp h
  have hlength : files.length = names.length := by
    split_ifs at h
    · rw [Option.some.inj h]
    · rw [← Option.some.inj h, List.length_map]
  rw [allFiles_fieldEntry hone] at hnames
  split_ifs at hnames with hlt
  refine ⟨?_, hlt⟩
  rw [hlength, seriesFiles_length hnames, length_upto]
  omega

end Reading

/-! ## A series of dumps -/

/-- The calls for a field with one component, among others, with one step after the other. -/
structure IsSeries (parent : CJson) (calls : List DynamicField) (field filePrefix postfixName : Str) (start n : ℤ) :
    Prop where
  nonneg : 0 ≤ start
  pos : 1 ≤ n
  fresh : parent.getObjectItem field = none
  steps : (callsFor field calls).map DynamicField.step = upto start (start + n)
  oneComponent : ∀ a ∈ (callsFor field calls).head?, a.componentPostfixes = [postfixName]
  samePrefix : ∀ a ∈ callsFor field calls, a.filePrefix = filePrefix
  registered : Registered parent field calls

/-- The files of all steps are opened, in their order, and no step changes the entry of another field. -/
structure ReadsAllSteps (pathExists : Str → Bool) (baseDir : Str) (parent : CJson) (calls : List DynamicField)
    (field filePrefix postfixName : Str) (start n : ℤ) : Prop where
  opens : ∃ varMeta opened, (addDynamicFields parent calls).item field = some varMeta ∧
    loadTimeVaryingPfb pathExists baseDir varMeta = some opened ∧
    (opened = (upto start (start + n)).map (writtenFile filePrefix postfixName) ∨
      opened = (upto start (start + n)).map fun step => baseDir ++ "/".toList ++ writtenFile filePrefix postfixName step)
  keeps : KeepsOthers parent calls

section Series

variable {field filePrefix postfixName : Str} {parent : CJson} {calls : List DynamicField} {start n : ℤ}

/-- The entry after a series has the first and the last step. -/
theorem IsSeries.item_eq (h : IsSeries parent calls field filePrefix postfixName start n) (hkeep : KeepsOthers parent calls) :
    (addDynamicFields parent calls).item field = none ∨ ∃ first ∈ (callsFor field calls).head?, first.step = start ∧
      (addDynamicFields parent calls).item field = some (fieldEntry first postfixName (start + n - 1)) := by
  have hpos := h.pos
  have hno : field ∉ names parent := by
    intro hmem
    have hne := getObjectItem_eq_none_iff.mp h.fresh field hmem
    rw [sameName_refl] at hne
    exact absurd hne.symm Bool.false_ne_true
  apply (run_of_absent h.oneComponent h.registered hkeep hno).imp_right
  rintro ⟨first, hfirst, hitem⟩
  have hstep : first.step = start := by
    have hhead : ((callsFor field calls).map DynamicField.step).head? = some first.step := by
      rw [List.head?_map, Option.mem_def.mp hfirst]
      rfl
    rw [h.steps, head?_upto (by omega)] at hhead
    exact (Option.some.inj hhead).symm
  refine ⟨first, hfirst, hstep, ?_⟩
  rw [hitem, h.steps, getLast?_upto (by omega), Option.getD_some]

theorem series_not_read (pathExists : Str → Bool) (baseDir : Str) (parent : CJson) (calls : List DynamicField)
    (field filePrefix postfixName : Str) (start n : ℤ)
    (h : IsSeries parent calls field filePrefix postfixName start n) :
    ¬ ReadsAllSteps pathExists baseDir parent calls field filePrefix postfixName start n := by
  rintro ⟨⟨varMeta, opened, hitem, hload, hopened⟩, hkeep⟩
  have hlength : (opened.length : ℤ) = n := by
    have hpos := h.pos
    rcases hopened with rfl | rfl <;> rw [List.length_map, length_upto] <;> omega
  rcases h.item_eq hkeep with hnone | ⟨first, hfirst, hstep, hsome⟩
  · rw [hnone] at hitem
    exact absurd hitem.symm (Option.some_ne_none _)
  · rw [hsome] at hitem
    rw [← Option.some.inj hitem] at hload
    have hshort := (loadTimeVaryingPfb_length (h.oneComponent first hfirst) hload).1
    omega

end Series

/-! ## Three dumps -/

def pressureCall (step : ℤ) (componentPostfixes : List Str) : DynamicField :=
  ⟨"run".toList, step, "pressure".toList, some "m".toList, "cell".toList, "subsurface".toList, componentPostfixes⟩

def saturationCall (step : ℤ) (componentPostfixes : List Str) : DynamicField :=
  ⟨"run".toList, step, "saturation".toList, none, "cell".toList, "subsurface".toList, componentPostfixes⟩

/-- The initial dump and two more of the pressure, and two of the saturation. -/
def threeDumps : List DynamicField :=
  [pressureCall 0 ["press".toList], saturationCall 0 ["satur".toList], pressureCall 1 [], saturationCall 1 [], pressureCall 2 []]

theorem threeDumps_isSeries :
    IsSeries (.object []) threeDumps "pressure".toList "run".toList "press".toList 0 3 where
  nonneg := le_rfl
  pos := by decide
  fresh := rfl
  steps := rfl
  oneComponent := by
    intro a ha
    rw [← Option.some.inj (show some (pressureCall 0 ["press".toList]) = some a from ha)]
    rfl
  samePrefix := by
    intro a ha
    obtain ⟨hmem, -⟩ := List.mem_filter.mp ha
    have hall : ∀ a ∈ threeDumps, a.filePrefix = "run".toList := by
      unfold threeDumps
      simp only [List.forall_mem_cons]
      exact ⟨rfl, rfl, rfl, rfl, rfl, fun a ha => absurd ha List.not_mem_nil⟩
    exact hall a hmem
  registered := by
    have hall : ∀ k < threeDumps.length, (metadataAddDynamicField (addDynamicFields (.object []) (threeDumps.take k))
        (threeDumps.getD k (pressureCall 0 []))).1 = 1 := by decide +kernel
    intro before a after hcalls _
    have h := hall before.length (by rw [hcalls]; simp)
    rw [hcalls, List.take_left' rfl, List.getD_append_right _ _ _ _ le_rfl, Nat.sub_self] at h
    exact h

theorem threeDumps_series_not_read : ¬ ReadsAllSteps (fun _ => true) [] (.object []) threeDumps "pressure".toList
    "run".toList "press".toList 0 3 :=
  series_not_read _ _ _ _ _ _ _ _ _ threeDumps_isSeries

/-- Only the first two of the three files are opened. -/
theorem threeDumps_misses_last : IsSeries (.object []) threeDumps "pressure".toList "run".toList "press".toList 0 3 ∧
    ((addDynamicFields (.object []) threeDumps).item "pressure".toList).bind (loadTimeVaryingPfb (fun _ => true) []) =
      some ["run.press.00000.pfb".toList, "run.press.00001.pfb".toList] ∧
    ¬ ReadsAllSteps (fun _ => true) [] (.object []) threeDumps "pressure".toList "run".toList "press".toList 0 3 := by
  have hload : ((addDynamicFields (.object []) threeDumps).item "pressure".toList).bind
      (loadTimeVaryingPfb (fun _ => true) []) =
      some ["run.press.00000.pfb".toList, "run.press.00001.pfb".toList] := by decide +kernel
  refine ⟨threeDumps_isSeries, hload, ?_⟩
  rintro ⟨⟨varMeta, opened, hitem, hopens, hopened⟩, -⟩
  rw [hitem, Option.bind_some, hopens] at hload
  have hlength := congrArg List.length (Option.some.inj hload)
  rcases hopened with rfl | rfl <;> exact absurd hlength (by decide)

end ParFlow.Metadata
