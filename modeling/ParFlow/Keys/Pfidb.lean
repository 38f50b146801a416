import ParFlow.Keys.DatabaseDefs

/-! Which dictionaries come back unchanged from the file that is written for them. The lengths in the file count
characters, the reader counts bytes, and it skips the white space at the start of a text with the end of the line
before it. -/

namespace ParFlow

open TextScan Hbt FuelRun

/-! ## The order of the entries -/

def idbKey (e : IDBEntry) : List ℕ := e.key.map UInt8.toNat

theorem strcmp_spec {s t : List UInt8} (hs : 0 ∉ s) (ht : 0 ∉ t) :
    (strcmp s t < 0 ↔ s.map UInt8.toNat < t.map UInt8.toNat) ∧ (strcmp s t = 0 ↔ s = t) := by
  have hpos : ∀ {b : UInt8}, b ≠ 0 → 0 < b.toNat := fun hb => Nat.pos_of_ne_zero (fun h => hb (UInt8.toNat_inj.mp h))
  induction s generalizing t with
  | nil =>
    cases t with
    | nil => simp [strcmp]
    | cons b bs =>
      have hb := hpos (Ne.symm (List.ne_of_not_mem_cons ht))
      simp [strcmp]
      omega
  | cons a as ih =>
    have ha := hpos (Ne.symm (List.ne_of_not_mem_cons hs))
    cases t with
    | nil =>
      simp [strcmp]
      omega
    | cons b bs =>
      unfold strcmp
      by_cases hab : a = b
      · subst hab
        rw [if_pos rfl, List.map_cons, List.map_cons, List.cons_lt_cons_iff]
        have hrec := ih (List.not_mem_of_not_mem_cons hs) (List.not_mem_of_not_mem_cons ht)
        simp [hrec.1, hrec.2]
      · have hne : a.toNat ≠ b.toNat := fun h => hab (UInt8.toNat_inj.mp h)
        rw [if_neg hab, List.map_cons, List.map_cons, List.cons_lt_cons_iff]
        simp only [hne, false_and, or_false, List.cons.injEq, hab, sub_neg, Nat.cast_lt, true_and, sub_eq_zero, Nat.cast_inj]

theorem idbKey_eq_iff (a b : IDBEntry) : idbKey a = idbKey b ↔ a.key = b.key :=
  (List.map_injective_iff.mpr fun _ _ h => UInt8.toNat_inj.mp h).eq_iff

theorem idbCompare_compares : Compares idbCompare idbKey := by
  intro a b
  obtain ⟨hlt, heq⟩ := strcmp_spec a.key_no_zero b.key_no_zero
  exact ⟨hlt, heq.trans (idbKey_eq_iff a b).symm⟩

theorem find?_idbKey {p : IDBEntry → Bool} {x : IDBEntry} (hp : ∀ e, p e = true ↔ idbKey e = idbKey x)
    (entries : List IDBEntry) : entries.find? p = entries.find? fun e => e.key = x.key := by
  apply congrArg (fun p => List.find? p entries)
  funext e
  rw [Bool.eq_iff_iff, hp, idbKey_eq_iff, decide_eq_true_iff]

/-! ## What is read -/

/-- The dictionaries that the reader has room for. -/
structure IsPfidbInput (d : List (List Char × List Char)) : Prop where
  nodup : (d.map Prod.fst).Nodup
  no_zero : ∀ kv ∈ d, '\x00' ∉ kv.1 ∧ '\x00' ∉ kv.2
  key_len : ∀ kv ∈ d, (utf8 kv.1).length < 2048
  value_len : ∀ kv ∈ d, (utf8 kv.2).length < 65536
  size : d.length < 2 ^ 31

/-- The text does not start with white space. -/
def NoBlank (text : List Char) : Prop := ∀ b ∈ (utf8 text).head?, isSpace b = false

instance (text : List Char) : Decidable (NoBlank text) := inferInstanceAs (Decidable (∀ b ∈ (utf8 text).head?, _))

def IsPlain (d : List (List Char × List Char)) : Prop :=
  ∀ kv ∈ d, (IsAscii kv.1 ∧ NoBlank kv.1) ∧ IsAscii kv.2 ∧ NoBlank kv.2

instance (d : List (List Char × List Char)) : Decidable (IsPlain d) := inferInstanceAs (Decidable (∀ kv ∈ d, _))

/-- The database has the keys of the dictionary, each with its value, and no others. -/
def ReadUnchanged (d : List (List Char × List Char)) : Prop :=
  (∃ db, IdbNewDB (utf8 (writeDictAsPfidb d)) db) ∧ ∀ db, IdbNewDB (utf8 (writeDictAsPfidb d)) db →
    ∀ x : IDBEntry, ∃ found, Returns (fun fuel => hbtLookup idbCompare fuel x db) found ∧
      found.map IDBEntry.value = (d.find? fun kv => utf8 kv.1 = x.key).map fun kv => utf8 kv.2

theorem readUnchanged_iff (d : List (List Char × List Char)) :
    ReadUnchanged d ↔ ∃ entries, idbEntries (utf8 (writeDictAsPfidb d)) = some entries ∧
      ∀ x : IDBEntry, (entries.find? fun e => e.key = x.key).map IDBEntry.value =
        (d.find? fun kv => utf8 kv.1 = x.key).map fun kv => utf8 kv.2 := by
  constructor
  · rintro ⟨⟨db, entries, hentries, hdb⟩, hall⟩
    refine ⟨entries, hentries, ?_⟩
    intro x
    obtain ⟨found, hret, hfound⟩ := hall db ⟨entries, hentries, hdb⟩ x
    obtain ⟨-, -, hlookup, -⟩ := inserted_dictionary idbCompare idbKey idbCompare_compares entries db hdb
    rw [← hfound, hret.unique (hlookup x)]
    apply congrArg
    symm
    apply find?_idbKey
    intro e
    simp only [decide_eq_true_eq]
  · rintro ⟨entries, hentries, hall⟩
    constructor
    · obtain ⟨db, hdb⟩ := exists_inserted idbCompare_compares entries
      exact ⟨db, entries, hentries, hdb⟩
    · rintro db ⟨entries', hentries', hdb⟩ x
      obtain rfl : entries = entries' := Option.some.inj (hentries.symm.trans hentries')
      obtain ⟨-, -, hlookup, -⟩ := inserted_dictionary idbCompare idbKey idbCompare_compares entries db hdb
      refine ⟨_, hlookup x, ?_⟩
      rw [← hall x]
      apply congrArg
      apply find?_idbKey
      intro e
      simp only [decide_eq_true_eq]

/-! ## Fields -/

theorem cString_eq_self {bytes : List UInt8} (h : 0 ∉ bytes) : cString bytes = bytes := by
  apply List.takeWhile_eq_self_iff.mpr
  intro b hb
  simpa using ne_of_mem_of_not_mem hb h

theorem utf8_newline : utf8 ['\n'] = [10] := by decide

/-- A text without blanks at its start, behind its length: as many bytes are read as it has characters. -/
theorem read_field {text : List Char} (hblank : NoBlank text) {before after : List UInt8}
    (hbefore : ∀ b ∈ before, isSpace b) (hafter : ∀ b ∈ after.head?, isSpace b = false) :
    ∃ rest space, (∀ b ∈ space, isSpace b) ∧
      ampsScanInt (before ++ (utf8 (pfidbField text) ++ after)) = some ((text.length : ℤ), rest) ∧
      ampsScanChar text.length rest =
        some ((utf8 text).take text.length, (utf8 text).drop text.length ++ (space ++ after)) := by
  have hspace : ∀ b ∈ [(10 : UInt8)], isSpace b := fun b hb => by rw [List.mem_singleton.mp hb]; rfl
  have hfield : utf8 (pfidbField text) ++ after = utf8 (decimal text.length) ++ ([10] ++ (utf8 text ++ ([10] ++ after))) := by
    simp only [pfidbField, utf8_append, utf8_newline, List.append_assoc]
  rw [hfield]
  by_cases hempty : text = []
  · -- both ends of lines are skipped behind the length
    subst hempty
    refine ⟨after, [], by simp, ?_, ?_⟩
    · have hspaces : ∀ b ∈ [(10 : UInt8)] ++ [10], isSpace b := by
        intro b hb
        exact hspace b ((List.mem_append.mp hb).elim id id)
      exact scanInt_decimal 0 hbefore (by simp) hspaces hafter
    · simp [ampsScanChar]
  · refine ⟨utf8 text ++ ([10] ++ after), [10], hspace, ?_, ?_⟩
    · apply scanInt_decimal _ hbefore (by simp) hspace
      intro b hb
      have hne : utf8 text ≠ [] := by
        intro hnil
        have hlen := length_le_length_utf8 text
        rw [hnil] at hlen
        exact hempty (List.length_eq_zero_iff.mp (Nat.le_zero.mp hlen))
      apply hblank b
      rwa [List.head?_append_of_ne_nil _ hne] at hb
    · have hlen := length_le_length_utf8 text
      unfold ampsScanChar
      rw [Int.toNat_natCast, if_neg (by rw [List.length_append]; omega), List.take_append_of_le_length hlen,
        List.drop_append_of_le_length hlen]

theorem field_head (text : List Char) (after : List UInt8) : ∀ b ∈ (utf8 (pfidbField text) ++ after).head?, isSpace b = false := by
  obtain ⟨hne, hdigits, -⟩ := decimal_digits text.length
  obtain ⟨d, ds, hcons⟩ := List.exists_cons_of_ne_nil hne
  intro b hb
  rw [hcons] at hdigits
  have hd : b = d := by
    simpa [pfidbField, hcons, eq_comm] using hb
  rw [hd]
  exact not_isSpace_of_isDigit (hdigits d List.mem_cons_self)

/-- An item whose key is plain: the key is read, and as many bytes of the value as it has characters. -/
theorem read_entry {kv : List Char × List Char} (hkey : IsAscii kv.1) (hkblank : NoBlank kv.1) (hvblank : NoBlank kv.2)
    (hklen : (utf8 kv.1).length < 2048) (hvlen : (utf8 kv.2).length < 65536) {before after : List UInt8}
    (hbefore : ∀ b ∈ before, isSpace b) (hafter : ∀ b ∈ after.head?, isSpace b = false) :
    ∃ space, (∀ b ∈ space, isSpace b) ∧
      idbReadEntry (before ++ (utf8 (pfidbField kv.1 ++ pfidbField kv.2) ++ after)) =
        some (idbNewEntry (utf8 kv.1) ((utf8 kv.2).take kv.2.length), (utf8 kv.2).drop kv.2.length ++ (space ++ after)) := by
  have hk := (length_utf8_eq_iff kv.1).mpr hkey
  obtain ⟨rest, space, hspace, hscan, hchars⟩ := read_field hkblank hbefore (field_head kv.2 after)
  rw [← hk, List.take_length, List.drop_length, List.nil_append, hk] at hchars
  obtain ⟨rest', space', hspace', hscan', hchars'⟩ := read_field hvblank hspace hafter
  refine ⟨space', hspace', ?_⟩
  have hlen := length_le_length_utf8 kv.2
  have hfits : ¬ ((kv.1.length : ℤ) < 0 ∨ (kv.1.length : ℤ) + 1 > idbMaxKeyLen ∨ (kv.2.length : ℤ) < 0 ∨
      (kv.2.length : ℤ) + 1 > idbMaxValueLen) := by
    unfold idbMaxKeyLen idbMaxValueLen
    omega
  unfold idbReadEntry
  rw [utf8_append, List.append_assoc, hscan]
  simp only [Option.bind_eq_bind, Option.bind_some, hchars, hscan', hchars', if_neg hfits]

/-! ## The whole file -/

/-- The entry of an item of a plain dictionary. -/
def pfidbEntry (kv : List Char × List Char) : IDBEntry := idbNewEntry (utf8 kv.1) (utf8 kv.2)

def pfidbBody (d : List (List Char × List Char)) : List UInt8 := utf8 (d.flatMap fun kv => pfidbField kv.1 ++ pfidbField kv.2)

theorem pfidbBody_cons (kv : List Char × List Char) (d : List (List Char × List Char)) :
    pfidbBody (kv :: d) = utf8 (pfidbField kv.1 ++ pfidbField kv.2) ++ pfidbBody d := by
  simp [pfidbBody]

theorem pfidbBody_head (d : List (List Char × List Char)) : ∀ b ∈ (pfidbBody d).head?, isSpace b = false := by
  cases d with
  | nil => simp [pfidbBody]
  | cons kv d =>
    rw [pfidbBody_cons, utf8_append, List.append_assoc]
    exact field_head kv.1 _

theorem idbEntries_eq (d : List (List Char × List Char)) :
    idbEntries (utf8 (writeDictAsPfidb d)) = idbReadEntries d.length (pfidbBody d) := by
  have hspace : ∀ b ∈ [(10 : UInt8)], isSpace b := fun b hb => by rw [List.mem_singleton.mp hb]; rfl
  have hfile : utf8 (writeDictAsPfidb d) = [] ++ (utf8 (decimal d.length) ++ ([10] ++ pfidbBody d)) := by
    simp only [writeDictAsPfidb, utf8_append, utf8_newline, pfidbBody, List.append_assoc, List.nil_append]
  unfold idbEntries ampsScanInt
  rw [hfile, scanInt_decimal d.length (by simp) (by simp) hspace (pfidbBody_head d)]
  rfl

/-- With keys in ASCII and no blanks at the start of a text, the entries are those of the dictionary up to the first
value that has characters of more than one byte, which is cut. -/
theorem idbReadEntries_spec {d : List (List Char × List Char)} (hkeys : ∀ kv ∈ d, IsAscii kv.1)
    (hblank : ∀ kv ∈ d, NoBlank kv.1 ∧ NoBlank kv.2)
    (hlen : ∀ kv ∈ d, (utf8 kv.1).length < 2048 ∧ (utf8 kv.2).length < 65536) {space : List UInt8}
    (hspace : ∀ b ∈ space, isSpace b) :
    ((∀ kv ∈ d, IsAscii kv.2) ∧ idbReadEntries d.length (space ++ pfidbBody d) = some (d.map pfidbEntry)) ∨
      ∃ front kv back, d = front ++ kv :: back ∧ ¬ IsAscii kv.2 ∧
        ∀ entries, idbReadEntries d.length (space ++ pfidbBody d) = some entries →
          ∃ rest, entries = front.map pfidbEntry ++ idbNewEntry (utf8 kv.1) ((utf8 kv.2).take kv.2.length) :: rest := by
  induction d generalizing space with
  | nil => exact .inl ⟨by simp, rfl⟩
  | cons kv d ih =>
    obtain ⟨hkey, hkeys⟩ := List.forall_mem_cons.mp hkeys
    obtain ⟨hkvblank, hblank⟩ := List.forall_mem_cons.mp hblank
    obtain ⟨hkvlen, hlen⟩ := List.forall_mem_cons.mp hlen
    obtain ⟨space', hspace', hread⟩ := read_entry hkey hkvblank.1 hkvblank.2 hkvlen.1 hkvlen.2 hspace (pfidbBody_head d)
    rw [← pfidbBody_cons] at hread
    by_cases hvalue : IsAscii kv.2
    · have hv := (length_utf8_eq_iff kv.2).mpr hvalue
      rw [← hv, List.take_length, List.drop_length, List.nil_append] at hread
      have hstep : idbReadEntries (kv :: d).length (space ++ pfidbBody (kv :: d)) =
          (idbReadEntries d.length (space' ++ pfidbBody d)).map (pfidbEntry kv :: ·) := by
        rw [List.length_cons, idbReadEntries, hread, Option.map_eq_bind]
        rfl
      obtain ⟨hall, hentries⟩ | ⟨front, kv', back, hsplit, hbad, hentries⟩ := ih hkeys hblank hlen hspace'
      · left
        refine ⟨List.forall_mem_cons.mpr ⟨hvalue, hall⟩, ?_⟩
        rw [hstep, hentries]
        rfl
      · right
        refine ⟨kv :: front, kv', back, by rw [hsplit]; rfl, hbad, ?_⟩
        intro entries hread'
        rw [hstep] at hread'
        obtain ⟨entries', hentries', rfl⟩ := Option.map_eq_some_iff.mp hread'
        obtain ⟨rest, hrest⟩ := hentries entries' hentries'
        exact ⟨rest, by rw [hrest]; rfl⟩
    · right
      refine ⟨[], kv, d, rfl, hvalue, ?_⟩
      intro entries hread'
      rw [List.length_cons, idbReadEntries, hread] at hread'
      obtain ⟨_, hsome, hread'⟩ := Option.bind_eq_some_iff.mp hread'
      obtain rfl := Option.some.inj hsome
      obtain ⟨entries', -, hcons⟩ := Option.bind_eq_some_iff.mp hread'
      exact ⟨entries', (Option.some.inj hcons).symm⟩

/-- No key or value that is read starts with white space. -/
theorem noBlank_of_idbReadEntries {n : ℕ} {bytes : List UInt8} {entries : List IDBEntry}
    (h : idbReadEntries n bytes = some entries) :
    ∀ e ∈ entries, (∀ b ∈ e.key.head?, isSpace b = false) ∧ ∀ b ∈ e.value.head?, isSpace b = false := by
  have hhead : ∀ {bytes taken rest : List UInt8} {len : ℤ}, (∀ b ∈ bytes.head?, isSpace b = false) →
      ampsScanChar len bytes = some (taken, rest) → ∀ b ∈ (cString taken).head?, isSpace b = false := by
    intro bytes taken rest len hbytes hscan b hb
    unfold ampsScanChar at hscan
    split at hscan
    · cases hscan
    · obtain ⟨rfl, -⟩ := Prod.mk.inj (Option.some.inj hscan)
      apply hbytes b
      have hstart : cString (bytes.take len.toNat) <+: bytes :=
        (List.takeWhile_prefix _).trans (List.take_prefix _ _)
      obtain ⟨after, hafter⟩ := hstart
      rw [← hafter, List.head?_append, Option.mem_def.mp hb]
      rfl
  induction n generalizing bytes entries with
  | zero =>
    obtain rfl : [] = entries := Option.some.inj h
    simp
  | succ n ih =>
    obtain ⟨⟨entry, rest⟩, hentry, h⟩ := Option.bind_eq_some_iff.mp h
    obtain ⟨entries', hentries', h⟩ := Option.bind_eq_some_iff.mp h
    obtain rfl : entry :: entries' = entries := Option.some.inj h
    refine List.forall_mem_cons.mpr ⟨?_, ih hentries'⟩
    obtain ⟨⟨keyLen, bytes₁⟩, hkeyLen, hentry⟩ := Option.bind_eq_some_iff.mp hentry
    obtain ⟨⟨key, bytes₂⟩, hkey, hentry⟩ := Option.bind_eq_some_iff.mp hentry
    obtain ⟨⟨valueLen, bytes₃⟩, hvalueLen, hentry⟩ := Option.bind_eq_some_iff.mp hentry
    obtain ⟨⟨value, bytes₄⟩, hvalue, hentry⟩ := Option.bind_eq_some_iff.mp hentry
    dsimp only at hentry
    split at hentry
    · cases hentry
    · obtain ⟨rfl, -⟩ := Prod.mk.inj (Option.some.inj hentry)
      exact ⟨hhead (head_of_scanInt hkeyLen) hkey, hhead (head_of_scanInt hvalueLen) hvalue⟩

section Dictionary

variable {d : List (List Char × List Char)}

theorem IsPfidbInput.find?_eq (h : IsPfidbInput d) {kv : List Char × List Char} (hkv : kv ∈ d) :
    (d.find? fun kv' => utf8 kv'.1 = utf8 kv.1) = some kv := by
  obtain ⟨kv', hfind⟩ : ∃ kv', (d.find? fun kv' => utf8 kv'.1 = utf8 kv.1) = some kv' := by
    apply Option.isSome_iff_exists.mp
    rw [List.find?_isSome]
    exact ⟨kv, hkv, by simp⟩
  have hkey : utf8 kv'.1 = utf8 kv.1 := by simpa using List.find?_some hfind
  rw [hfind, List.inj_on_of_nodup_map h.nodup (List.mem_of_find?_eq_some hfind) hkv (utf8_injective hkey)]

theorem IsPfidbInput.pfidbEntry_eq (h : IsPfidbInput d) {kv : List Char × List Char} (hkv : kv ∈ d) :
    (pfidbEntry kv).key = utf8 kv.1 ∧ (pfidbEntry kv).value = utf8 kv.2 :=
  ⟨cString_eq_self (zero_notMem_utf8 (h.no_zero kv hkv).1), cString_eq_self (zero_notMem_utf8 (h.no_zero kv hkv).2)⟩

/-- The entry to look a key up with. -/
def IsPfidbInput.probe (h : IsPfidbInput d) {kv : List Char × List Char} (hkv : kv ∈ d) : IDBEntry :=
  ⟨utf8 kv.1, [], zero_notMem_utf8 (h.no_zero kv hkv).1⟩

/-- Every item of the dictionary is the first entry under its key. -/
theorem exists_entry_of_readUnchanged (h : IsPfidbInput d) {entries : List IDBEntry}
    (hall : ∀ x : IDBEntry, (entries.find? fun e => e.key = x.key).map IDBEntry.value =
      (d.find? fun kv => utf8 kv.1 = x.key).map fun kv => utf8 kv.2) {kv : List Char × List Char} (hkv : kv ∈ d) :
    ∃ e, (entries.find? fun e => e.key = utf8 kv.1) = some e ∧ e.value = utf8 kv.2 := by
  have hx := hall (h.probe hkv)
  have hfind := h.find?_eq hkv
  unfold IsPfidbInput.probe at hx
  dsimp only at hx
  rw [hfind] at hx
  exact Option.map_eq_some_iff.mp hx

theorem noBlank_of_readUnchanged (h : IsPfidbInput d) (hread : ReadUnchanged d) : ∀ kv ∈ d, NoBlank kv.1 ∧ NoBlank kv.2 := by
  obtain ⟨entries, hentries, hall⟩ := (readUnchanged_iff d).mp hread
  rw [idbEntries_eq] at hentries
  intro kv hkv
  obtain ⟨e, hfind, hvalue⟩ := exists_entry_of_readUnchanged h hall hkv
  have hkey : e.key = utf8 kv.1 := by simpa using List.find?_some hfind
  obtain ⟨hk, hv⟩ := noBlank_of_idbReadEntries hentries e (List.mem_of_find?_eq_some hfind)
  unfold NoBlank
  rw [← hkey, ← hvalue]
  exact ⟨hk, hv⟩

theorem readUnchanged_of_isPlain (h : IsPfidbInput d) (hplain : IsPlain d) : ReadUnchanged d := by
  have hlen : ∀ kv ∈ d, (utf8 kv.1).length < 2048 ∧ (utf8 kv.2).length < 65536 :=
    fun kv hkv => ⟨h.key_len kv hkv, h.value_len kv hkv⟩
  obtain ⟨-, hread⟩ | ⟨front, kv, back, hsplit, hbad, -⟩ := idbReadEntries_spec (fun kv hkv => (hplain kv hkv).1.1)
    (fun kv hkv => ⟨(hplain kv hkv).1.2, (hplain kv hkv).2.2⟩) hlen (List.forall_mem_nil _)
  · apply (readUnchanged_iff d).mpr
    refine ⟨d.map pfidbEntry, by rw [idbEntries_eq]; exact hread, ?_⟩
    intro x
    have hfind : d.find? ((fun e => decide (e.key = x.key)) ∘ pfidbEntry) = d.find? fun kv => utf8 kv.1 = x.key := by
      apply List.find?_congr
      intro kv hkv
      rw [Function.comp_apply, (h.pfidbEntry_eq hkv).1]
    rw [List.find?_map, hfind, Option.map_map]
    apply Option.map_congr
    intro kv hkv
    exact (h.pfidbEntry_eq (List.mem_of_find?_eq_some hkv)).2
  · exact absurd (hplain kv (by rw [hsplit]; simp)).2.1 hbad

theorem isPlain_of_readUnchanged (h : IsPfidbInput d) (hkeys : ∀ kv ∈ d, IsAscii kv.1) (hread : ReadUnchanged d) : IsPlain d := by
  have hblank := noBlank_of_readUnchanged h hread
  have hlen : ∀ kv ∈ d, (utf8 kv.1).length < 2048 ∧ (utf8 kv.2).length < 65536 :=
    fun kv hkv => ⟨h.key_len kv hkv, h.value_len kv hkv⟩
  obtain ⟨entries, hentries, hall⟩ := (readUnchanged_iff d).mp hread
  rw [idbEntries_eq] at hentries
  obtain ⟨hvalues, -⟩ | ⟨front, kv, back, hsplit, hbad, hcut⟩ := idbReadEntries_spec hkeys hblank hlen (List.forall_mem_nil _)
  · intro kv hkv
    exact ⟨⟨hkeys kv hkv, (hblank kv hkv).1⟩, hvalues kv hkv, (hblank kv hkv).2⟩
  · -- the value that is cut is found under its key
    exfalso
    obtain ⟨rest, rfl⟩ := hcut entries hentries
    have hkv : kv ∈ d := by rw [hsplit]; simp
    obtain ⟨e, hfind, hvalue⟩ := exists_entry_of_readUnchanged h hall hkv
    have hfront : (front.map pfidbEntry).find? (fun e => e.key = utf8 kv.1) = none := by
      rw [List.find?_eq_none]
      intro e he
      obtain ⟨kv', hkv', rfl⟩ := List.mem_map.mp he
      rw [(h.pfidbEntry_eq (by rw [hsplit]; exact List.mem_append_left _ hkv')).1, decide_eq_true_iff]
      intro heq
      have hnodup := h.nodup
      rw [hsplit, List.map_append, List.nodup_append] at hnodup
      exact hnodup.2.2 kv'.1 (List.mem_map_of_mem hkv') kv.1 (by simp) (utf8_injective heq)
    rw [List.find?_append, hfront, Option.none_or, List.find?_cons_of_pos, Option.some.injEq] at hfind
    · have hlong := lt_of_le_of_ne (length_le_length_utf8 kv.2) (fun heq => hbad ((length_utf8_eq_iff kv.2).mp heq.symm))
      have hshort : e.value.length ≤ kv.2.length := by
        rw [← hfind]
        exact ((List.takeWhile_prefix _).length_le).trans (List.length_take_le _ _)
      rw [hvalue] at hshort
      omega
    · exact decide_eq_true (h.pfidbEntry_eq hkv).1

/-- A dictionary comes back unchanged when its texts are ASCII and do not start with white space. A text that starts
with white space never comes back, and with keys in ASCII no other value does. -/
theorem readUnchanged_pfidb (d : List (List Char × List Char)) (h : IsPfidbInput d) :
    (IsPlain d → ReadUnchanged d) ∧ (ReadUnchanged d → ∀ kv ∈ d, NoBlank kv.1 ∧ NoBlank kv.2) ∧
      ((∀ kv ∈ d, IsAscii kv.1) → (ReadUnchanged d ↔ IsPlain d)) :=
  ⟨readUnchanged_of_isPlain h, noBlank_of_readUnchanged h,
    fun hkeys => ⟨isPlain_of_readUnchanged h hkeys, readUnchanged_of_isPlain h⟩⟩

end Dictionary

/-- A value that is empty, and one with a blank inside. -/
def plainKeys : List (List Char × List Char) := [("A.B".toList, []), ("A".toList, "x y".toList)]

theorem plainKeys_readUnchanged : ReadUnchanged plainKeys := by
  have hinput : IsPfidbInput plainKeys := ⟨by decide, by decide, by decide, by decide, by decide⟩
  exact (readUnchanged_pfidb plainKeys hinput).1 (by decide +kernel)

/-- A value that starts with a blank. -/
def blankValue : List (List Char × List Char) := [("A".toList, " x".toList)]

/-- A value with a letter of two bytes. -/
def accentValue : List (List Char × List Char) := [("A".toList, "\u00e9".toList)]

theorem blank_accent_not_read : (IsPfidbInput blankValue ∧ ¬ ReadUnchanged blankValue) ∧
    IsPfidbInput accentValue ∧ ¬ ReadUnchanged accentValue := by
  have hblank : IsPfidbInput blankValue := ⟨by decide, by decide, by decide, by decide, by decide⟩
  have haccent : IsPfidbInput accentValue := ⟨by decide, by decide, by decide, by decide, by decide⟩
  refine ⟨⟨hblank, ?_⟩, haccent, ?_⟩
  · intro h
    exact absurd (noBlank_of_readUnchanged hblank h) (by decide +kernel)
  · intro h
    exact absurd (isPlain_of_readUnchanged haccent (by decide +kernel) h) (by decide +kernel)

end ParFlow
