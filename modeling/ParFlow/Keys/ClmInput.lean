import ParFlow.Keys.ClmInputDefs

/-! The words of a line are the key and the value when both leave a blank in their columns. A key that fills its column
is stored without its last letter, and a value that fills its column runs into the help text. -/

namespace ParFlow.ClmInput

open TextTable PyText OrderedDict

variable {lc : LowerCase} {item : Item} {items : List Item} {group : Group} {groups : List Group}
  {autoGenerated runName text line rest key value : List Char} {lines lines' : List (List Char)}
  {pairs pairs' : List (List Char × List Char)}

/-! ## The pairs of the lines -/

def readPairs (lc : LowerCase) : List (List Char) → Except Fault (List (List Char × List Char))
  | [] => .ok []
  | line :: lines => do
    let pair ← readLine lc line
    let pairs ← readPairs lc lines
    .ok (pair.toList ++ pairs)

def storePairs (clmVars pairs : List (List Char × List Char)) : List (List Char × List Char) :=
  pairs.foldl (fun clmVars pair => assign pair.1 pair.2 clmVars) clmVars

theorem readLine_of_not_lower (h : line.head?.any lc.islower = false) : readLine lc line = .ok none := by
  rw [readLine, h]
  rfl

/-- Empty lines make no difference. -/
theorem readPairs_filter (lines : List (List Char)) : readPairs lc (lines.filter (· ≠ [])) = readPairs lc lines := by
  induction lines with
  | nil => rfl
  | cons line lines ih =>
    by_cases hne : line = []
    · rw [hne, List.filter_cons_of_neg (by simp), ih, readPairs, readLine_of_not_lower rfl]
      cases readPairs lc lines <;> rfl
    · rw [List.filter_cons, if_pos (decide_eq_true hne), readPairs, ih, readPairs]

theorem foldlM_storeLine (lines : List (List Char)) (clmVars : List (List Char × List Char)) :
    lines.foldlM (storeLine lc) clmVars = (readPairs lc lines).map (storePairs clmVars) := by
  induction lines generalizing clmVars with
  | nil => rfl
  | cons line lines ih =>
    rw [List.foldlM_cons, storeLine, readPairs]
    cases readLine lc line with
    | error fault => rfl
    | ok pair =>
      cases pair with
      | none =>
        change lines.foldlM _ clmVars = _
        rw [ih]
        cases readPairs lc lines <;> rfl
      | some pair =>
        change lines.foldlM _ (assign pair.1 pair.2 clmVars) = _
        rw [ih]
        cases readPairs lc lines <;> rfl

theorem readClmin_eq (text : List Char) : readClmin lc text = (readPairs lc (tokens isBreak text)).map (storePairs []) := by
  rw [readClmin, foldlM_storeLine, ← readPairs_filter, filter_fileLines]

theorem readPairs_append (lines lines' : List (List Char)) : readPairs lc (lines ++ lines') =
    (readPairs lc lines).bind fun pairs => (readPairs lc lines').map (pairs ++ ·) := by
  induction lines with
  | nil =>
    change readPairs lc lines' = _
    cases readPairs lc lines' <;> rfl
  | cons line lines ih =>
    rw [List.cons_append, readPairs, readPairs, ih]
    cases readLine lc line with
    | error fault => rfl
    | ok pair =>
      cases readPairs lc lines with
      | error fault => rfl
      | ok pairs =>
        cases readPairs lc lines' with
        | error fault => rfl
        | ok pairs' => exact congrArg Except.ok (List.append_assoc _ _ _).symm

/-- Lines that are no pairs can be left out on either side. -/
theorem readPairs_of_not_lower (h : ∀ line ∈ lines, line.head?.any lc.islower = false) : readPairs lc lines = .ok [] := by
  induction lines with
  | nil => rfl
  | cons line lines ih =>
    obtain ⟨hline, hlines⟩ := List.forall_mem_cons.mp h
    rw [readPairs, readLine_of_not_lower hline, ih hlines]
    rfl

theorem readPairs_skip_left (h : ∀ line ∈ lines, line.head?.any lc.islower = false) (lines' : List (List Char)) :
    readPairs lc (lines ++ lines') = readPairs lc lines' := by
  rw [readPairs_append, readPairs_of_not_lower h]
  cases readPairs lc lines' <;> rfl

theorem mem_readPairs (hread : readPairs lc lines = .ok pairs) {pair : List Char × List Char} (h : pair ∈ pairs) :
    ∃ line ∈ lines, readLine lc line = .ok (some pair) := by
  induction lines generalizing pairs with
  | nil =>
    cases hread
    exact absurd h List.not_mem_nil
  | cons line lines ih =>
    rw [readPairs] at hread
    cases hline : readLine lc line with
    | error fault => rw [hline] at hread; cases hread
    | ok first =>
      cases hlines : readPairs lc lines with
      | error fault => rw [hline, hlines] at hread; cases hread
      | ok rest =>
        rw [hline, hlines] at hread
        cases hread
        rcases List.mem_append.mp h with h | h
        · rw [Option.mem_toList] at h
          exact ⟨line, List.mem_cons_self, h ▸ hline⟩
        · obtain ⟨line', hmem, hpair⟩ := ih hlines h
          exact ⟨line', List.mem_cons_of_mem _ hmem, hpair⟩

/-- What a dictionary holds was stored in it. -/
theorem mem_of_get_storePairs (h : get key (storePairs [] pairs) = some value) : (key, value) ∈ pairs :=
  (mem_foldl_assign (mem_of_get h)).resolve_left List.not_mem_nil

/-! ## The lines of the file -/

/-- A key and a value that do not break the line. -/
structure OneLine (item : Item) : Prop where
  key_ne_nil : item.key ≠ []
  key_solid : ∀ c ∈ item.key, isSpace c = false
  value_solid : ∀ c ∈ item.value, isSpace c = false

/-- The first line of the text of an item. -/
def itemLine (item : Item) : List Char :=
  padRight 15 item.key ++ padRight 40 item.value ++ (replaceNewlines item.help).takeWhile fun c => !isBreak c

theorem not_isBreak {c : Char} (h : isSpace c = false) : isBreak c = false := by
  cases hbreak : isBreak c with
  | false => rfl
  | true => exact absurd (isSpace_of_isBreak hbreak) (by rw [h]; exact Bool.false_ne_true)

theorem padRight_noBreak (width : ℕ) (h : ∀ c ∈ text, isSpace c = false) : ∀ c ∈ padRight width text, isBreak c = false := by
  intro c hc
  rcases List.mem_append.mp hc with hc | hc
  · exact not_isBreak (h c hc)
  · rw [List.eq_of_mem_replicate hc]
    rfl

/-- A comment, with all the lines that it breaks into. -/
theorem readPairs_comment {pre : List Char} (hpre : ∀ c ∈ '!' :: pre, isBreak c = false)
    (hhidden : ∀ line ∈ hiddenLines text, line.head?.any lc.islower = false) (rest : List Char) :
    readPairs lc (tokens isBreak ('!' :: pre ++ text ++ ['\n'] ++ rest)) = readPairs lc (tokens isBreak rest) := by
  rw [List.append_assoc, List.singleton_append, tokens_append_sep rfl, tokens_word_append hpre (List.cons_ne_nil _ _)]
  apply readPairs_skip_left
  rw [List.forall_mem_cons]
  exact ⟨lc.bang, hhidden⟩

theorem readPairs_bang (rest : List Char) :
    readPairs lc (tokens isBreak ("!\n".toList ++ rest)) = readPairs lc (tokens isBreak rest) :=
  @readPairs_comment lc [] [] (by simp [isBreak]) (fun line hline => absurd hline List.not_mem_nil) rest

theorem tokens_itemText (h : OneLine item) (rest : List Char) : tokens isBreak (itemText item ++ rest) =
    itemLine item :: (hiddenLines (replaceNewlines item.help) ++ tokens isBreak rest) := by
  have hpre : ∀ c ∈ padRight 15 item.key ++ padRight 40 item.value, isBreak c = false := by
    intro c hc
    rcases List.mem_append.mp hc with hc | hc
    · exact padRight_noBreak 15 h.key_solid c hc
    · exact padRight_noBreak 40 h.value_solid c hc
  have hne : padRight 15 item.key ++ padRight 40 item.value ≠ [] :=
    List.append_ne_nil_of_left_ne_nil (List.append_ne_nil_of_left_ne_nil h.key_ne_nil _) _
  rw [itemText, List.append_assoc, List.cons_append, List.singleton_append, tokens_append_sep rfl, tokens_sep_cons rfl,
    tokens_word_append hpre hne]
  rfl

theorem readPairs_items (hone : ∀ item ∈ items, OneLine item)
    (hhidden : ∀ item ∈ items, ∀ line ∈ hiddenLines (replaceNewlines item.help), line.head?.any lc.islower = false)
    (rest : List Char) : readPairs lc (tokens isBreak (items.flatMap itemText ++ rest)) =
      readPairs lc (items.map itemLine ++ tokens isBreak rest) := by
  induction items with
  | nil => rfl
  | cons item items ih =>
    obtain ⟨hitem, hitems⟩ := List.forall_mem_cons.mp hone
    obtain ⟨hline, hlines⟩ := List.forall_mem_cons.mp hhidden
    rw [List.flatMap_cons, List.append_assoc, tokens_itemText hitem, readPairs, readPairs_skip_left hline, ih hitems hlines]
    rfl

def isItem (item : Item) : Bool := item.key ≠ "doc".toList

theorem readPairs_groups (hone : ∀ item ∈ (allItems groups).filter isItem, OneLine item)
    (hdocs : ∀ group ∈ groups, ∀ line ∈ hiddenLines (replaceNewlines (strip group.doc)),
      line.head?.any lc.islower = false)
    (hhelps : ∀ item ∈ allItems groups, ∀ line ∈ hiddenLines (replaceNewlines item.help),
      line.head?.any lc.islower = false) :
    readPairs lc (tokens isBreak (groups.flatMap groupText)) =
      readPairs lc (((allItems groups).filter isItem).map itemLine) := by
  induction groups with
  | nil => rfl
  | cons group groups ih =>
    obtain ⟨hdoc, hdocs⟩ := List.forall_mem_cons.mp hdocs
    have hitems : allItems (group :: groups) = group.items ++ allItems groups := List.flatMap_cons
    rw [hitems, List.filter_append] at hone
    rw [hitems] at hhelps
    have htail := ih (fun item hitem => hone item (List.mem_append_right _ hitem)) hdocs
      fun item hitem => hhelps item (List.mem_append_right _ hitem)
    have hgroup := @readPairs_items lc (group.items.filter isItem)
      (fun item hitem => hone item (List.mem_append_left _ hitem))
      (fun item hitem => hhelps item (List.mem_append_left _ (List.mem_of_mem_filter hitem))) (groups.flatMap groupText)
    have hcomment := @readPairs_comment lc (replaceNewlines (strip group.doc)) [' '] (by simp [isBreak]) hdoc
      ("!\n".toList ++ ((group.items.filter isItem).flatMap itemText ++ groups.flatMap groupText))
    rw [readPairs_bang, hgroup, readPairs_append, htail, ← readPairs_append, ← List.map_append,
      ← List.filter_append] at hcomment
    rw [List.flatMap_cons, groupText, hitems, ← hcomment]
    simp only [List.append_assoc]
    exact readPairs_bang _

/-- What the reader finds in the file, when every text of an item stays on its line. -/
theorem readPairs_writeInput (hone : ∀ item ∈ (allItems groups).filter isItem, OneLine item)
    (hhidden : NoHiddenPairs lc autoGenerated runName groups) :
    readPairs lc (tokens isBreak (writeInput autoGenerated runName groups)) =
      readPairs lc (((allItems groups).filter isItem).map itemLine) := by
  unfold NoHiddenPairs at hhidden
  simp only [List.cons_append, List.forall_mem_cons, List.forall_mem_append, List.forall_mem_map] at hhidden
  obtain ⟨hauto, hrun, hdocs, hhelps⟩ := hhidden
  have htitle : ∀ c ∈ '!' :: " CLM input file for ".toList, isBreak c = false := by simp [isBreak]
  have hfirst := @readPairs_comment lc autoGenerated [' '] (by simp [isBreak]) hauto
    ("! CLM input file for ".toList ++ (runName ++ " ParFlow run".toList) ++ ['\n'] ++ groups.flatMap groupText)
  rw [writeInput, List.append_assoc]
  refine hfirst.trans ?_
  rw [← readPairs_groups hone hdocs hhelps]
  exact readPairs_comment htitle hrun _

/-! ## The words of a line -/

theorem padRight_of_le {width : ℕ} (h : width ≤ text.length) : padRight width text = text := by
  rw [padRight, Nat.sub_eq_zero_of_le h, List.replicate_zero, List.append_nil]

/-- The help text as far as it stands on the line of its item. -/
def helpStart (item : Item) : List Char := (replaceNewlines item.help).takeWhile fun c => !isBreak c

theorem itemLine_eq (item : Item) : itemLine item = padRight 15 item.key ++ (padRight 40 item.value ++ helpStart item) :=
  List.append_assoc _ _ _

/-- The help text starts behind the value without a blank between them only if it is there and starts with none. -/
theorem helpStart_takeWhile_iff (item : Item) :
    (helpStart item).takeWhile (fun c => !isSpace c) = [] ↔ item.help.head?.all isSpace := by
  unfold helpStart replaceNewlines
  cases item.help with
  | nil => exact iff_of_true rfl rfl
  | cons c help =>
    have hhead : ((c :: help).head?.all isSpace = true) ↔ isSpace c := Iff.rfl
    rw [hhead, List.map_cons]
    cases hc : isSpace c with
    | false =>
      have hne : c ≠ '\n' := by
        rintro rfl
        exact absurd hc (by decide)
      rw [if_neg hne, List.takeWhile_cons_of_pos (by rw [not_isBreak hc]; rfl), List.takeWhile_cons_of_pos (by rw [hc]; rfl)]
      exact iff_of_false (List.cons_ne_nil _ _) Bool.false_ne_true
    | true =>
      refine iff_of_true ?_ rfl
      have hspace : isSpace (if c = '\n' then ' ' else c) := by
        split_ifs
        · rfl
        · exact hc
      generalize (if c = '\n' then ' ' else c) = b at hspace
      rw [List.takeWhile_cons]
      split
      · exact List.takeWhile_cons_of_neg (by rw [hspace]; decide)
      · rfl

/-- The second word of a line. -/
theorem second_word (hvalue : ∀ c ∈ item.value, isSpace c = false) :
    (split (padRight 40 item.value ++ helpStart item)).head? = some item.value ↔
      item.value ≠ [] ∧ (item.value.length < 40 ∨ item.help.head?.all isSpace) := by
  by_cases hne : item.value = []
  · refine iff_of_false (fun h => ?_) fun h => h.1 hne
    exact (mem_split (List.mem_of_head? h)).1 hne
  rw [and_iff_right hne]
  by_cases hlength : item.value.length < 40
  · rw [split_padRight_append hne hvalue hlength]
    exact iff_of_true rfl (Or.inl hlength)
  · rw [padRight_of_le (not_lt.mp hlength), split, tokens_word_append hvalue hne, List.head?_cons, Option.some_inj,
      List.append_right_eq_self, helpStart_takeWhile_iff, or_iff_right hlength]

/-- What is stored for an item, by the length of its key. -/
theorem readLine_short (h : OneLine item) (hlower : item.key.head?.any lc.islower) (hlength : item.key.length < 15) :
    readLine lc (itemLine item) = match split (padRight 40 item.value ++ helpStart item) with
      | [] => .error .index
      | second :: _ => .ok (some (item.key, second)) := by
  have hhead : (itemLine item).head?.any lc.islower := by
    obtain ⟨c, cs, hc⟩ := List.exists_cons_of_ne_nil h.key_ne_nil
    rw [itemLine_eq, padRight, hc]
    rwa [hc] at hlower
  rw [readLine, hhead, itemLine_eq, split_padRight_append h.key_ne_nil h.key_solid hlength]
  change (if 15 < item.key.length then _ else _) = _
  rw [if_neg (by omega)]
  cases split (padRight 40 item.value ++ helpStart item) <;> rfl

/-- A key that fills its column is stored as it is only when there is no value. -/
theorem readLine_full (h : OneLine item) (hlength : item.key.length = 15) {pair : List Char × List Char}
    (hread : readLine lc (itemLine item) = .ok (some pair)) :
    (item.value = [] ∧ pair.1 = item.key ∧ pair.2 ≠ []) ∨ (item.value ≠ [] ∧ pair.1.length = 14) := by
  rw [readLine, itemLine_eq, padRight_of_le hlength.ge, split, tokens_word_append h.key_solid h.key_ne_nil] at hread
  split at hread
  case isFalse => cases hread
  dsimp only at hread
  by_cases hvalue : item.value = []
  · have hblank : (padRight 40 item.value ++ helpStart item).takeWhile (fun c => !isSpace c) = [] := by
      rw [hvalue]
      rfl
    rw [hblank, List.append_nil, if_neg (by omega)] at hread
    split at hread
    · rename_i second rest hwords
      cases hread
      have hmem : second ∈ split ((padRight 40 item.value ++ helpStart item).dropWhile fun c => !isSpace c) := by
        rw [split, hwords]
        exact List.mem_cons_self
      exact Or.inl ⟨hvalue, rfl, (mem_split hmem).1⟩
    · cases hread
  · obtain ⟨c, cs, hc⟩ := List.exists_cons_of_ne_nil hvalue
    have hsolid : isSpace c = false := h.value_solid c (by rw [hc]; exact List.mem_cons_self)
    have hlong : 15 < (item.key ++ (padRight 40 item.value ++ helpStart item).takeWhile fun c => !isSpace c).length := by
      rw [hc, padRight, List.cons_append, List.cons_append, List.takeWhile_cons_of_pos (by rw [hsolid]; rfl),
        List.length_append, List.length_cons]
      omega
    rw [if_pos hlong] at hread
    cases hread
    refine Or.inr ⟨hvalue, ?_⟩
    rw [List.length_take]
    omega

/-! ## The round trip -/

theorem find?_of_mem (hnodup : (items.map Item.key).Nodup) (h : item ∈ items) :
    items.find? (·.key = item.key) = some item := by
  induction items with
  | nil => exact absurd h List.not_mem_nil
  | cons first items ih =>
    obtain ⟨hfirst, hnodup⟩ := List.nodup_cons.mp hnodup
    rcases List.mem_cons.mp h with rfl | h
    · exact List.find?_cons_of_pos (decide_eq_true rfl)
    · rw [List.find?_cons_of_neg, ih hnodup h]
      rw [decide_eq_true_iff]
      rintro heq
      exact hfirst (heq ▸ List.mem_map_of_mem h)

theorem item_ext (hnodup : (items.map Item.key).Nodup) {item' : Item} (h : item ∈ items) (h' : item' ∈ items)
    (hkey : item'.key = item.key) : item' = item := List.inj_on_of_nodup_map hnodup h' h hkey

/-- The items that fit are read back, one pair a line. -/
theorem readPairs_fits (hfits : ∀ item ∈ items, Fits item) (hlower : ∀ item ∈ items, item.key.head?.any lc.islower)
    (hone : ∀ item ∈ items, OneLine item) :
    readPairs lc (items.map itemLine) = .ok (items.map fun item => (item.key, item.value)) := by
  induction items with
  | nil => rfl
  | cons item items ih =>
    obtain ⟨hfit, hfits⟩ := List.forall_mem_cons.mp hfits
    obtain ⟨hitem, hlower⟩ := List.forall_mem_cons.mp hlower
    obtain ⟨hline, hone⟩ := List.forall_mem_cons.mp hone
    have hsecond := (second_word hline.value_solid).mpr ⟨hfit.value_ne_nil, hfit.value_length⟩
    have hread : readLine lc (itemLine item) = .ok (some (item.key, item.value)) := by
      rw [readLine_short hline hitem (Nat.lt_succ_of_le hfit.key_length)]
      cases hwords : split (padRight 40 item.value ++ helpStart item) with
      | nil => rw [hwords] at hsecond; cases hsecond
      | cons second rest => rw [hwords, List.head?_cons, Option.some_inj] at hsecond; rw [hsecond]
    rw [List.map_cons, readPairs, hread, ih hfits hlower hone]
    rfl

theorem oneLine_of_isInput (hinput : IsInput lc items) (h : item ∈ items) (hsolid : ∀ c ∈ item.key, isSpace c = false) :
    OneLine item := by
  refine ⟨?_, hsolid, hinput.value_solid item h⟩
  intro hnil
  have hlower := hinput.key_lower item h
  rw [hnil] at hlower
  exact absurd hlower Bool.false_ne_true

theorem roundTrips_of_fits (hinput : IsInput lc (allItems groups)) (hhidden : NoHiddenPairs lc autoGenerated runName groups)
    (hfits : ∀ item ∈ allItems groups, Fits item) : RoundTrips lc autoGenerated runName groups := by
  have hone : ∀ item ∈ allItems groups, OneLine item := fun item h => oneLine_of_isInput hinput h (hfits item h).key_solid
  have hall : (allItems groups).filter isItem = allItems groups :=
    List.filter_eq_self.mpr fun item h => decide_eq_true (hfits item h).key_doc
  have hpairs := readPairs_writeInput (by rw [hall]; exact hone) hhidden
  rw [hall, readPairs_fits hfits hinput.key_lower hone] at hpairs
  have hkeys : OrderedDict.keys ((allItems groups).map fun item => (item.key, item.value)) =
      (allItems groups).map Item.key := by
    rw [OrderedDict.keys, List.map_map]
    rfl
  have hnodup := hkeys.symm ▸ hinput.keys_nodup
  have hstore : storePairs [] ((allItems groups).map fun item => (item.key, item.value)) =
      (allItems groups).map fun item => (item.key, item.value) := foldl_assign hnodup
  refine ⟨_, by rw [readClmin_eq, hpairs, Except.map, hstore], fun key => ?_⟩
  cases hfind : (allItems groups).find? (·.key = key) with
  | none =>
    rw [Option.map_none]
    cases hget : get key ((allItems groups).map fun item => (item.key, item.value)) with
    | none => rfl
    | some value =>
      obtain ⟨item, hitem, heq⟩ := List.mem_map.mp (mem_of_get hget)
      exact absurd (decide_eq_true (congrArg Prod.fst heq)) (List.find?_eq_none.mp hfind item hitem)
  | some item =>
    have hkey : item.key = key := by simpa using List.find?_some hfind
    rw [Option.map_some]
    exact get_of_mem hnodup (List.mem_map.mpr ⟨item, List.mem_of_find?_eq_some hfind, by rw [hkey]⟩)

/-- The pair of every item is on a line of the file. -/
theorem mem_pairs_of_roundTrips (hnodup : ((allItems groups).map Item.key).Nodup)
    (h : RoundTrips lc autoGenerated runName groups) :
    ∃ pairs, readPairs lc (tokens isBreak (writeInput autoGenerated runName groups)) = .ok pairs ∧
      ∀ item ∈ allItems groups, (item.key, item.value) ∈ pairs := by
  obtain ⟨clmVars, hread, hget⟩ := h
  rw [readClmin_eq] at hread
  cases hpairs : readPairs lc (tokens isBreak (writeInput autoGenerated runName groups)) with
  | error fault => rw [hpairs] at hread; cases hread
  | ok pairs =>
    rw [hpairs] at hread
    cases hread
    refine ⟨pairs, rfl, fun item hitem => mem_of_get_storePairs ?_⟩
    rw [hget, find?_of_mem hnodup hitem, Option.map_some]

/-- Only words are stored as keys. -/
theorem solid_of_readLine (hread : readLine lc line = .ok (some (key, value))) : ∀ c ∈ key, isSpace c = false := by
  rw [readLine] at hread
  split at hread
  case isFalse => cases hread
  cases hwords : split line with
  | nil => rw [hwords] at hread; cases hread
  | cons first rest =>
    have hfirst := (mem_split (hwords ▸ List.mem_cons_self : first ∈ split line)).2
    rw [hwords] at hread
    dsimp only at hread
    split at hread
    · cases hread
      exact fun c hc => hfirst c (List.mem_of_mem_take hc)
    · cases rest with
      | nil => cases hread
      | cons second rest => cases hread; exact hfirst

theorem fits_of_roundTrips (hinput : IsInput lc (allItems groups)) (hhidden : NoHiddenPairs lc autoGenerated runName groups)
    (h : RoundTrips lc autoGenerated runName groups) : ∀ item ∈ allItems groups, Fits item := by
  obtain ⟨pairs, hpairs, hmem⟩ := mem_pairs_of_roundTrips hinput.keys_nodup h
  have hsolid : ∀ item ∈ allItems groups, ∀ c ∈ item.key, isSpace c = false := by
    intro item hitem
    obtain ⟨line, -, hread⟩ := mem_readPairs hpairs (hmem item hitem)
    exact solid_of_readLine hread
  have hone : ∀ item ∈ allItems groups, OneLine item := fun item hitem =>
    oneLine_of_isInput hinput hitem (hsolid item hitem)
  rw [readPairs_writeInput (fun item hitem => hone item (List.mem_of_mem_filter hitem)) hhidden] at hpairs
  have hline : ∀ item ∈ allItems groups, ∃ item' ∈ allItems groups, isItem item' ∧
      readLine lc (itemLine item') = .ok (some (item.key, item.value)) := by
    intro item hitem
    obtain ⟨line, hline, hread⟩ := mem_readPairs hpairs (hmem item hitem)
    obtain ⟨item', hitem', rfl⟩ := List.mem_map.mp hline
    exact ⟨item', List.mem_of_mem_filter hitem', (List.mem_filter.mp hitem').2, hread⟩
  -- No line gives a key of fifteen characters with its own value.
  have hlength : ∀ item ∈ allItems groups, item.key.length < 15 := by
    intro item hitem
    by_contra hlong
    obtain ⟨item', hitem', -, hread⟩ := hline item hitem
    have hkey := hinput.key_length item hitem
    rcases Nat.lt_or_eq_of_le (hinput.key_length item' hitem') with hshort | hfull
    · rw [readLine_short (hone item' hitem') (hinput.key_lower item' hitem') hshort] at hread
      split at hread
      · cases hread
      · have hstored : item'.key = item.key := congrArg Prod.fst (Option.some_inj.mp (Except.ok.inj hread))
        rw [hstored] at hshort
        exact hlong hshort
    · rcases readLine_full (hone item' hitem') hfull hread with ⟨hvalue, heq, hne⟩ | ⟨-, hcut⟩
      · rw [item_ext hinput.keys_nodup hitem hitem' heq.symm] at hvalue
        exact hne hvalue
      · dsimp only at hcut
        omega
  intro item hitem
  obtain ⟨item', hitem', hwritten, hread⟩ := hline item hitem
  rw [readLine_short (hone item' hitem') (hinput.key_lower item' hitem') (hlength item' hitem')] at hread
  cases hwords : split (padRight 40 item'.value ++ helpStart item') with
  | nil => rw [hwords] at hread; cases hread
  | cons second rest =>
    rw [hwords] at hread
    obtain ⟨hkey, hvalue⟩ := Prod.mk.injEq .. ▸ Option.some_inj.mp (Except.ok.inj hread)
    obtain rfl := item_ext hinput.keys_nodup hitem hitem' hkey
    have hsecond := (second_word (hinput.value_solid item' hitem)).mp (by rw [hwords, hvalue]; rfl)
    exact ⟨of_decide_eq_true hwritten, Nat.le_of_lt_succ (hlength item' hitem), hsolid item' hitem, hsecond.1, hsecond.2⟩

theorem roundTrips_iff (hinput : IsInput lc (allItems groups)) (hhidden : NoHiddenPairs lc autoGenerated runName groups) :
    RoundTrips lc autoGenerated runName groups ↔ ∀ item ∈ allItems groups, Fits item :=
  ⟨fits_of_roundTrips hinput hhidden, roundTrips_of_fits hinput hhidden⟩

theorem asciiLower_solid (c : Char) (h : decide ('a' ≤ c ∧ c ≤ 'z') = true) : isSpace c = false := by
  rw [decide_eq_true_iff] at h
  have hfirst : 97 ≤ c.toNat := h.1
  have hlast : c.toNat ≤ 122 := h.2
  rw [isSpace, decide_eq_false_iff_not]
  omega

theorem asciiLower_bang : decide ('a' ≤ '!' ∧ '!' ≤ 'z') = false := by decide

def asciiLower : LowerCase where
  islower c := 'a' ≤ c ∧ c ≤ 'z'
  solid := asciiLower_solid
  bang := asciiLower_bang

def startYear : Group where
  doc := "Timing".toList
  items := [⟨"syr".toList, "1999".toList, "Starting Year".toList⟩]

theorem startYear_roundTrips_iff : RoundTrips asciiLower "a".toList "run".toList [startYear] ↔
    ∀ item ∈ allItems [startYear], Fits item := by
  refine roundTrips_iff ⟨by decide, by decide, by decide, ?_⟩ ?_
  · simp [allItems, startYear, isSpace]
  · unfold NoHiddenPairs
    decide

def maxTranspiration : Group where
  doc := "Leaf".toList
  items := [⟨"qflx_tran_vegmx".toList, "-9999.0".toList, "Limit".toList⟩]

/-- The value runs into the key, which is cut back too far. -/
theorem maxTranspiration_not_roundTrips : IsInput asciiLower (allItems [maxTranspiration]) ∧
    NoHiddenPairs asciiLower "a".toList "run".toList [maxTranspiration] ∧
      ¬ RoundTrips asciiLower "a".toList "run".toList [maxTranspiration] := by
  have hread : readClmin asciiLower (writeInput "a".toList "run".toList [maxTranspiration]) =
      .ok [("qflx_tran_vegm".toList, "-9999.0".toList)] := by
    decide
  refine ⟨⟨by decide, by decide, by decide, ?_⟩, ?_, ?_⟩
  · simp [allItems, maxTranspiration, isSpace]
  · unfold NoHiddenPairs
    decide
  · rintro ⟨clmVars, hok, hget⟩
    rw [hread] at hok
    cases hok
    exact absurd (hget "qflx_tran_vegmx".toList) (by decide)

end ParFlow.ClmInput
