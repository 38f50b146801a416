import ParFlow.Keys.DatabaseDefs
import ParFlow.Keys.Pfidb
import ParFlow.Lib.DefaultStore
import ParFlow.Lib.TextTable

/-! What a key was answered with once is what it is answered with later, when the text of the default keeps it. -/

namespace ParFlow

open TextScan TextStream NumberText Hbt FuelRun HeapTree HTree
open DefaultStore hiding Answers

/-! ## The database as a store of texts -/

section Store

variable {db db' : HBT IDBEntry} {t : ElementTree IDBEntry} {key : CText}

def IdbDatabase (db : HBT IDBEntry) : Prop := ∃ t, Valid idbKey db t

/-- The database that is read from a file is one. -/
theorem IdbNewDB.database {bytes : List UInt8} (h : IdbNewDB bytes db) : IdbDatabase db := by
  obtain ⟨entries, -, hins⟩ := h
  obtain ⟨t, hv, -⟩ := hins.exists_valid idbCompare_compares
  exact ⟨t, hv⟩

def entryAt (entries : List IDBEntry) (key : CText) : Option IDBEntry := entries.find? fun e => e.key = key.1

/-- The texts of the entries, by their keys. -/
def storedTexts (t : ElementTree IDBEntry) : Store CText (List UInt8) := fun key => (entryAt (inOrder t) key).map IDBEntry.value

theorem idbLookup_returns (hv : Valid idbKey db t) (key : CText) :
    Returns (fun fuel => hbtLookup idbCompare fuel (lookupEntry key) db) (entryAt (inOrder t) key) := by
  have hlookup := hbtLookup_returns idbCompare_compares hv (lookupEntry key)
  convert hlookup using 1
  symm
  refine find?_idbKey (x := lookupEntry key) (fun e => ?_) (inOrder t)
  simp only [decide_eq_true_eq]

theorem idbNewEntry_key (key : CText) (text : List UInt8) : (idbNewEntry key.1 text).key = key.1 := cString_eq_self key.2

/-- The entry of a missing key is found behind the insertion, and no other one is touched. -/
theorem entryAt_insert {A B : List IDBEntry} (hmissing : entryAt (A ++ B) key = none) (text : List UInt8) (k : CText) :
    entryAt (A ++ idbNewEntry key.1 text :: B) k =
      if k = key then some (idbNewEntry key.1 text) else entryAt (A ++ B) k := by
  have hnew := idbNewEntry_key key text
  unfold entryAt at hmissing ⊢
  rw [List.find?_append] at hmissing ⊢
  by_cases hk : k = key
  · rw [if_pos hk, hk, (Option.or_eq_none_iff.mp hmissing).1, Option.none_or, List.find?_cons_of_pos (by simpa using hnew)]
  · have hne : ¬ (idbNewEntry key.1 text).key = k.1 := by
      rw [hnew]
      exact fun heq => hk (Subtype.ext heq.symm)
    rw [if_neg hk, List.find?_cons_of_neg (by simpa using hne), List.find?_append]

theorem storedTexts_insert {t' : ElementTree IDBEntry} {A B : List IDBEntry} (hmissing : storedTexts t key = none)
    (ht : inOrder t = A ++ B) (text : List UInt8) (ht' : inOrder t' = A ++ idbNewEntry key.1 text :: B) :
    storedTexts t' = Function.update (storedTexts t) key (some (cString text)) := by
  unfold storedTexts at hmissing ⊢
  rw [ht] at hmissing ⊢
  rw [ht']
  funext k
  rw [entryAt_insert (Option.map_eq_none_iff.mp hmissing)]
  by_cases hk : k = key
  · rw [if_pos hk, hk, Function.update_self]
    rfl
  · rw [if_neg hk, Function.update_of_ne hk]

/-- A missing key is inserted, when there is memory for it. -/
theorem idbInsert_returns (hv : Valid idbKey db t) {a : Addr} (hcell : db.heap a = none) (hmissing : storedTexts t key = none)
    (text : List UInt8) : ∃ db' t' ret, Returns (fun fuel => hbtInsert idbCompare fuel (some a) (idbNewEntry key.1 text) db)
      (db', ret) ∧ Valid idbKey db' t' ∧ storedTexts t' = Function.update (storedTexts t) key (some (cString text)) := by
  have hfree : ∀ b, some a = some b → db.heap b = none := fun b hb => Option.some.inj hb ▸ hcell
  obtain ⟨db', ret, hret, hspec⟩ := hbtInsert_spec (x := idbNewEntry key.1 text) idbCompare_compares hv hfree
  rcases hspec with ⟨⟨e, he, hkey⟩, -, -⟩ | ⟨-, ⟨hnone, -, -⟩ | ⟨-, t', A, B, hv', ht, ht'⟩⟩
  · have hnone := List.find?_eq_none.mp (Option.map_eq_none_iff.mp hmissing) e he
    rw [idbKey_eq_iff, idbNewEntry_key] at hkey
    exact absurd hkey (by simpa using hnone)
  · cases hnone
  · exact ⟨db', t', ret, hret, hv', storedTexts_insert hmissing ht text ht'⟩

end Store

/-! ## What a call does -/

section Calls

variable {db db' : HBT IDBEntry} {t : ElementTree IDBEntry} {e : IDBEntry} {a : Addr}

section Default

variable {β : Type} (scan : CText → List UInt8 → Except (List UInt8) β) (print : β → List UInt8) {key : CText} (d : β)

variable {γ : Type} (g : β → γ)

/-- A stored value is scanned, and the database is left alone. -/
theorem idbGetDefault_stored (hv : Valid idbKey db t) (he : entryAt (inOrder t) key = some e) (cell : Option Addr) {v : γ} :
    Returns (fun fuel => do
      let result ← idbGetDefault scan print fuel cell db key d
      .ok (result.map fun r => (g r.1, r.2))) (.ok (v, db')) ↔ (scan key e.value).map g = .ok v ∧ db' = db := by
  have hlookup := idbLookup_returns hv key
  have hret : Returns (fun fuel => idbGetDefault scan print fuel cell db key d) ((scan key e.value).map fun x => (x, db)) := by
    rw [he] at hlookup
    unfold idbGetDefault
    rw [returns_bind_iff hlookup]
    exact returns_const _
  rw [returns_bind_iff hret]
  constructor
  · intro h
    have heq := (returns_const _).unique h
    cases hscan : scan key e.value with
    | error message => rw [hscan] at heq; cases heq
    | ok x => rw [hscan] at heq; cases heq; exact ⟨rfl, rfl⟩
  · rintro ⟨hscan, rfl⟩
    cases hx : scan key e.value with
    | error message => rw [hx] at hscan; cases hscan
    | ok x => rw [hx] at hscan; cases hscan; exact returns_const _

/-- A missing value is its default, and the text of it is stored. -/
theorem idbGetDefault_missing (hv : Valid idbKey db t) (he : entryAt (inOrder t) key = none) (hcell : db.heap a = none) :
    ∃ db' t', Returns (fun fuel => do
      let result ← idbGetDefault scan print fuel (some a) db key d
      .ok (result.map fun r => (g r.1, r.2))) (.ok (g d, db')) ∧ Valid idbKey db' t' ∧
      storedTexts t' = Function.update (storedTexts t) key (some (cString (print d))) := by
  have hlookup := idbLookup_returns hv key
  have hmissing : storedTexts t key = none := Option.map_eq_none_iff.mpr he
  obtain ⟨db', t', ret, hinsert, hv', ht'⟩ := idbInsert_returns hv hcell hmissing (print d)
  have hret : Returns (fun fuel => idbGetDefault scan print fuel (some a) db key d) (.ok (d, db')) := by
    rw [he] at hlookup
    unfold idbGetDefault
    rw [returns_bind_iff hlookup]
    show Returns (fun fuel => hbtInsert idbCompare fuel (some a) (idbNewEntry key.1 (print d)) db >>= _) _
    rw [returns_bind_iff hinsert]
    exact returns_const _
  refine ⟨db', t', ?_, hv', ht'⟩
  rw [returns_bind_iff hret]
  exact returns_const _

end Default

def readValue : IdbKind → List UInt8 → Option IdbValue
  | .string, text => some (.string (cText text))
  | .double, text => (takeDouble text).map fun r => .double r.1
  | .int, text => (scanNumber text).map fun r => .int r.1

def valueText : IdbValue → List UInt8
  | .string s => s.1
  | .double x => utf8 (formatFixed 6 x)
  | .int n => utf8 (intText n)

def idbFormat : Format IdbKind (List UInt8) IdbValue where
  read := readValue
  text _ v := cString (valueText v)

def IdbCall.query (c : IdbCall) : Query CText IdbKind IdbValue := ⟨c.default.kind, c.key, c.default⟩

theorem scanValue_map_eq {β γ : Type} {read : List UInt8 → Option (β × List UInt8)} {type : String} {key : CText}
    {value : List UInt8} {g : β → γ} {v : γ} :
    (scanValue read type key value).map g = .ok v ↔ (read value).map (fun r => g r.1) = some v := by
  unfold scanValue
  cases read value with
  | none => exact iff_of_false nofun nofun
  | some r => exact ⟨fun h => congrArg some (Except.ok.inj h), fun h => congrArg Except.ok (Option.some.inj h)⟩

theorem idbCall_stored (hv : Valid idbKey db t) {c : IdbCall} (he : entryAt (inOrder t) c.key = some e) (cell : Option Addr)
    {v : IdbValue} : Returns (fun fuel => idbCall fuel cell db c) (.ok (v, db')) ↔
      readValue c.default.kind e.value = some v ∧ db' = db := by
  obtain ⟨key, d⟩ := c
  unfold idbCall
  cases d with
  | string s =>
    refine (idbGetDefault_stored _ _ s IdbValue.string hv he cell).trans (and_congr_left fun _ => ?_)
    exact ⟨fun h => congrArg some (Except.ok.inj h), fun h => congrArg Except.ok (Option.some.inj h)⟩
  | double x => exact (idbGetDefault_stored _ _ x IdbValue.double hv he cell).trans (and_congr_left fun _ => scanValue_map_eq)
  | int n => exact (idbGetDefault_stored _ _ n IdbValue.int hv he cell).trans (and_congr_left fun _ => scanValue_map_eq)

theorem idbCall_missing (hv : Valid idbKey db t) {c : IdbCall} (he : entryAt (inOrder t) c.key = none)
    (hcell : db.heap a = none) : ∃ db' t', Returns (fun fuel => idbCall fuel (some a) db c) (.ok (c.default, db')) ∧
      Valid idbKey db' t' ∧ storedTexts t' = Function.update (storedTexts t) c.key (some (cString (valueText c.default))) := by
  obtain ⟨key, d⟩ := c
  unfold idbCall
  cases d with
  | string s => exact idbGetDefault_missing _ _ s IdbValue.string hv he hcell
  | double x => exact idbGetDefault_missing _ _ x IdbValue.double hv he hcell
  | int n => exact idbGetDefault_missing _ _ n IdbValue.int hv he hcell

/-- A call asks the texts that are stored, when there is memory for a missing entry. -/
theorem idbCall_answers (hv : Valid idbKey db t) {cell : Option Addr} (hcell : ∀ a, cell = some a → db.heap a = none)
    {c : IdbCall} (hmemory : storedTexts t c.key = none → cell ≠ none) {v : IdbValue}
    (hret : Returns (fun fuel => idbCall fuel cell db c) (.ok (v, db'))) :
    ∃ t', Valid idbKey db' t' ∧ DefaultStore.Answers idbFormat (storedTexts t) c.query v (storedTexts t') := by
  cases he : entryAt (inOrder t) c.key with
  | some e =>
    obtain ⟨hread, rfl⟩ := (idbCall_stored hv he cell).mp hret
    have hkey : storedTexts t c.key = some e.value := by
      unfold storedTexts
      rw [he]
      rfl
    exact ⟨t, hv, .stored hkey hread⟩
  | none =>
    have hkey : storedTexts t c.key = none := Option.map_eq_none_iff.mpr he
    obtain ⟨a, rfl⟩ := Option.ne_none_iff_exists'.mp (hmemory hkey)
    obtain ⟨db'', t', hret', hv', ht'⟩ := idbCall_missing hv he (hcell a rfl)
    obtain ⟨rfl, rfl⟩ := Prod.mk.inj (Except.ok.inj (hret.unique hret'))
    refine ⟨t', hv', ?_⟩
    rw [ht']
    exact .missing hkey

end Calls

/-! ## Runs -/

section Runs

variable {db db₀ : HBT IDBEntry} {t₀ : ElementTree IDBEntry} {history : List (IdbCall × IdbValue)}

def IdbMissing (db : HBT IDBEntry) (key : CText) : Prop :=
  Returns (fun fuel => hbtLookup idbCompare fuel (lookupEntry key) db) none

/-- There is memory for the entry of a missing key. -/
def EnoughMemory (db : HBT IDBEntry) (cell : Option Addr) (c : IdbCall) : Prop := IdbMissing db c.key → cell ≠ none

/-- A double has no digit behind the sixth place. -/
def SixPlaces (v : IdbValue) : Prop := ∀ x, v = .double x → ∃ m : ℤ, x = m / 10 ^ 6

def KeepsDefault (db : HBT IDBEntry) (cell : Option Addr) (c : IdbCall) : Prop :=
  EnoughMemory db cell c ∧ (IdbMissing db c.key → SixPlaces c.default)

/-- Calls of one kind for one key return one value. -/
def SameAnswers (history : List (IdbCall × IdbValue)) : Prop :=
  ∀ a ∈ history, ∀ b ∈ history, a.1.default.kind = b.1.default.kind → a.1.key = b.1.key → a.2 = b.2

/-- The first call for a key returns what was stored at the start, or else its default. -/
def FirstAnswers (db₀ : HBT IDBEntry) (history : List (IdbCall × IdbValue)) : Prop :=
  ∀ before a after, history = before ++ a :: after → (∀ b ∈ before, b.1.key ≠ a.1.key) →
    (∃ e, Returns (fun fuel => hbtLookup idbCompare fuel (lookupEntry a.1.key) db₀) (some e) ∧
      readValue a.1.default.kind e.value = some a.2) ∨ IdbMissing db₀ a.1.key ∧ a.2 = a.1.default

theorem idbMissing_iff {t : ElementTree IDBEntry} (hv : Valid idbKey db t) (key : CText) :
    IdbMissing db key ↔ storedTexts t key = none := by
  have hlookup := idbLookup_returns hv key
  unfold storedTexts
  rw [Option.map_eq_none_iff]
  constructor
  · intro h
    exact (h.unique hlookup).symm
  · intro h
    rwa [h] at hlookup

/-- A default is kept by its text, doubles when six places are enough. -/
theorem keeps_iff (c : IdbCall) : Keeps idbFormat c.query ↔ SixPlaces c.default := by
  obtain ⟨key, d⟩ := c
  unfold Keeps IdbCall.query idbFormat SixPlaces
  cases d with
  | string s =>
    have hs : cText (cString s.1) = s :=
      Subtype.ext ((congrArg cString (cString_eq_self s.2)).trans (cString_eq_self s.2))
    apply iff_of_true (congrArg (fun s => some (IdbValue.string s)) hs)
    intro x hx
    cases hx
  | double x =>
    have htext : cString (utf8 (formatFixed 6 x)) = utf8 (formatFixed 6 x) :=
      cString_eq_self (numberChars_formatFixed 6 x).zero_notMem
    have hread := takeDouble_formatFixed_eq_iff 6 x
    rw [takeDouble_formatFixed] at hread
    simp only [IdbValue.kind, valueText, readValue, htext, takeDouble_formatFixed, Option.map_some, Option.some.injEq,
      IdbValue.double.injEq, Prod.mk.injEq, and_true] at hread ⊢
    rw [hread]
    exact ⟨fun h y hy => hy ▸ h, fun h => h x rfl⟩
  | int n =>
    have htext : cString (utf8 (intText n)) = utf8 (intText n) := cString_eq_self (numberChars_intText n).zero_notMem
    apply iff_of_true
    · simp only [IdbValue.kind, valueText, readValue, htext, scanNumber_intText, Option.map_some]
    · intro x hx
      cases hx

def asked (a : IdbCall × IdbValue) : Query CText IdbKind IdbValue × IdbValue := (a.1.query, a.2)

/-- The calls ask a store of texts, which begins with the entries of the database. -/
theorem IdbRun.run (h : IdbRun KeepsDefault db₀ history db) (hv₀ : Valid idbKey db₀ t₀) :
    ∃ t, Valid idbKey db t ∧ Run idbFormat (KeepsMissing idbFormat) (storedTexts t₀) (history.map asked) (storedTexts t) := by
  induction h with
  | start => exact ⟨t₀, hv₀, .start⟩
  | @call history db db' cell c v h hcell hallowed hret ih =>
    obtain ⟨t, hv, hrun⟩ := ih
    obtain ⟨hmemory, hsix⟩ := hallowed
    have hmissing := idbMissing_iff hv c.key
    obtain ⟨t', hv', hans⟩ := idbCall_answers hv hcell (fun hnone => hmemory (hmissing.mpr hnone)) hret
    have hkeeps : KeepsMissing idbFormat (storedTexts t) c.query := fun hnone =>
      (keeps_iff c).mpr (hsix (hmissing.mpr hnone))
    refine ⟨t', hv', ?_⟩
    rw [List.map_append]
    exact hrun.ask hkeeps hans

theorem idbDefaults_stable (db₀ : HBT IDBEntry) (hdb : IdbDatabase db₀) (history : List (IdbCall × IdbValue))
    (db : HBT IDBEntry) (h : IdbRun KeepsDefault db₀ history db) : SameAnswers history ∧ FirstAnswers db₀ history := by
  obtain ⟨t₀, hv₀⟩ := hdb
  obtain ⟨t, -, hrun⟩ := h.run hv₀
  constructor
  · intro a ha b hb hkind hkey
    exact hrun.stable (fun _ _ h => h) (asked a) (List.mem_map_of_mem ha) (asked b) (List.mem_map_of_mem hb) hkind hkey
  · intro before a after heq hbefore
    have hfirst := hrun.firstAnswered (fun _ _ h => h) (before.map asked) (asked a) (after.map asked)
      (by rw [heq, List.map_append, List.map_cons]) (List.forall_mem_map.mpr hbefore)
    have hlookup := idbLookup_returns hv₀ a.1.key
    cases he : entryAt (inOrder t₀) a.1.key with
    | some e =>
      rw [he] at hlookup
      have htext : storedTexts t₀ a.1.key = some e.value := by
        unfold storedTexts
        rw [he]
        rfl
      simp only [asked, IdbCall.query, htext] at hfirst
      exact Or.inl ⟨e, hlookup, hfirst⟩
    | none =>
      rw [he] at hlookup
      have htext : storedTexts t₀ a.1.key = none := Option.map_eq_none_iff.mpr he
      simp only [asked, IdbCall.query, htext] at hfirst
      exact Or.inr ⟨hlookup, hfirst⟩

/-- Two calls on a new database. -/
theorem askTwice (key : CText) (d d' : IdbValue) {v : IdbValue} (hread : readValue d'.kind (cString (valueText d)) = some v) :
    ∃ db, IdbRun EnoughMemory (hbtNew false) [(⟨key, d⟩, d), (⟨key, d'⟩, v)] db ∧
      (SixPlaces d → IdbRun KeepsDefault (hbtNew false) [(⟨key, d⟩, d), (⟨key, d'⟩, v)] db) := by
  have hnew : Valid idbKey (hbtNew false) (.nil : ElementTree IDBEntry) := valid_new false
  obtain ⟨db, t, hret, hv, ht⟩ := idbCall_missing (a := 0) hnew (c := ⟨key, d⟩) rfl rfl
  have hfree : ∀ a, some 0 = some a → (hbtNew false : HBT IDBEntry).heap a = none := fun _ _ => rfl
  have hstored : storedTexts t key = some (cString (valueText d)) := by rw [ht, Function.update_self]
  have hthere : ¬ IdbMissing db key := by
    rw [idbMissing_iff hv, hstored]
    exact Option.some_ne_none _
  -- the second call finds the entry
  obtain ⟨e, he, hvalue⟩ := Option.map_eq_some_iff.mp hstored
  have hsecond : Returns (fun fuel => idbCall fuel none db ⟨key, d'⟩) (.ok (v, db)) :=
    (idbCall_stored hv he none).mpr ⟨by rw [hvalue]; exact hread, rfl⟩
  have hnone : ∀ a, none = some a → db.heap a = none := fun a ha => by cases ha
  use db
  constructor
  · exact (IdbRun.start.call hfree (fun _ => Option.some_ne_none 0) hret).call hnone (fun h => absurd h hthere) hsecond
  · intro hsix
    have hfirst : KeepsDefault (hbtNew false) (some 0) ⟨key, d⟩ := ⟨fun _ => Option.some_ne_none 0, fun _ => hsix⟩
    have hagain : KeepsDefault db none ⟨key, d'⟩ := ⟨fun h => absurd h hthere, fun h => absurd h hthere⟩
    exact (IdbRun.start.call hfree hfirst hret).call hnone hagain hsecond

def keyK : CText := ⟨[75], by decide⟩

/-- A key asked for with 1/2 and then with 3. -/
theorem halfDefault_stable : ∃ db, IdbRun KeepsDefault (hbtNew false)
    [(⟨keyK, .double (1 / 2)⟩, .double (1 / 2)), (⟨keyK, .double 3⟩, .double (1 / 2))] db ∧
      SameAnswers [(⟨keyK, .double (1 / 2)⟩, .double (1 / 2)), (⟨keyK, .double 3⟩, .double (1 / 2))] := by
  have hsix : SixPlaces (.double (1 / 2)) := by
    rintro x ⟨⟩
    exact ⟨500000, by norm_num⟩
  have hkeeps := (keeps_iff ⟨keyK, .double (1 / 2)⟩).mpr hsix
  obtain ⟨db, -, hrun⟩ := askTwice keyK (.double (1 / 2)) (.double 3) hkeeps
  have hdb : IdbDatabase (hbtNew false) := ⟨.nil, valid_new false⟩
  exact ⟨db, hrun hsix, (idbDefaults_stable (hbtNew false) hdb _ db (hrun hsix)).1⟩

/-- The default 1e-8 is stored as 0. -/
theorem smallDefault_changes : ¬ ∀ db₀ history db, IdbDatabase db₀ → IdbRun EnoughMemory db₀ history db →
    SameAnswers history := by
  intro h
  have hround : roundHalfEven (|(1 / 10 ^ 8 : ℚ)| * 10 ^ 6) = 0 := by
    unfold roundHalfEven
    norm_num [Int.fract]
  have hread : readValue .double (cString (valueText (.double (1 / 10 ^ 8)))) = some (.double 0) := by
    unfold valueText
    rw [cString_eq_self (numberChars_formatFixed 6 _).zero_notMem]
    show Option.map _ (takeDouble (utf8 (formatFixed 6 _))) = _
    rw [takeDouble_formatFixed, hround]
    norm_num [signed]
  obtain ⟨db, hrun, -⟩ := askTwice keyK (.double (1 / 10 ^ 8)) (.double (1 / 10 ^ 8)) hread
  have hsame := h (hbtNew false) _ db ⟨.nil, valid_new false⟩ hrun (⟨keyK, .double (1 / 10 ^ 8)⟩, .double (1 / 10 ^ 8))
    (by simp) (⟨keyK, .double (1 / 10 ^ 8)⟩, .double 0) (by simp) rfl rfl
  rw [IdbValue.double.injEq] at hsame
  norm_num at hsame

end Runs

end ParFlow

/-! The names of an array are the tokens of its text. An array made from a text without tokens has no text, and
nothing can be appended to it. -/

namespace ParFlow

open FuelRun TextTable

variable {text name rest : Str} {names : List Str} {nameArray : NameArray}

/-! ## Tokens -/

theorem tokens_of_strtok_none (h : strtok text = none) : tokens naWhiteSpace text = [] := by
  unfold strtok at h
  dsimp only at h
  split_ifs at h with hnil
  exact tokens_eq_nil_iff.mpr hnil

theorem tokens_of_strtok_some (h : strtok text = some (name, rest)) :
    tokens naWhiteSpace text = name :: tokens naWhiteSpace rest := by
  unfold strtok at h
  dsimp only at h
  split_ifs at h with hnil
  obtain ⟨rfl, rfl⟩ := Prod.mk.inj (Option.some.inj h)
  exact tokens_eq_cons hnil

theorem strtokAll_eq (text : Str) : strtokAll text = tokens naWhiteSpace text := by
  induction text using strtokAll.induct with
  | case1 text h =>
    unfold strtokAll
    split
    · exact (tokens_of_strtok_none h).symm
    · rename_i hsome
      rw [h] at hsome
      cases hsome
  | case2 text name rest h ih =>
    unfold strtokAll
    split
    · rename_i hnone
      rw [h] at hnone
      cases hnone
    · rename_i hsome
      obtain ⟨rfl, rfl⟩ := Prod.mk.inj (Option.some.inj (h.symm.trans hsome))
      rw [ih, tokens_of_strtok_some h]

/-! ## Arrays -/

/-- The array holds these names, and finds them. -/
structure Holds (nameArray : NameArray) (names : List Str) : Prop where
  names_eq : nameArray.names = names
  num_eq : nameArray.num = names.length
  index : ∀ name, naNameToIndex nameArray name = if name ∈ names then (names.idxOf name : ℤ) else -1

theorem naNameToIndex_eq (hnames : nameArray.names = names) (hnum : nameArray.num = names.length) (name : Str) :
    naNameToIndex nameArray name = if name ∈ names then (names.idxOf name : ℤ) else -1 := by
  unfold naNameToIndex
  rw [hnames, hnum]
  split_ifs with hmem
  · have hlt : names.idxOf name < names.length := List.idxOf_lt_length_iff.mpr hmem
    have hfirst : (List.range names.length).find? (fun i => decide (names[i]? = some name)) = some (names.idxOf name) := by
      rw [List.find?_range_eq_some]
      refine ⟨?_, List.mem_range.mpr hlt, ?_⟩
      · rw [decide_eq_true_iff, List.getElem?_eq_getElem hlt, List.getElem_idxOf]
      · intro j hj
        have hjlt := hj.trans hlt
        have hother : names[j] ≠ name := by
          have h := List.not_of_lt_findIdx hj
          simpa using h
        simp only [List.getElem?_eq_getElem hjlt, Option.some.injEq, hother, decide_false, Bool.not_false]
    rw [hfirst]
  · have hnone : (List.range names.length).find? (fun i => decide (names[i]? = some name)) = none := by
      rw [List.find?_eq_none]
      intro i _ hi
      exact hmem (List.mem_of_getElem? (of_decide_eq_true hi))
    rw [hnone]

theorem holds_tokens (h : strtok text = some (name, rest)) :
    Holds ⟨1 + (strtokAll rest).length, strtokAll text, some text⟩ (tokens naWhiteSpace text) := by
  have hnum : 1 + (strtokAll rest).length = (tokens naWhiteSpace text).length := by
    rw [strtokAll_eq, tokens_of_strtok_some h, List.length_cons, Nat.add_comm]
  exact ⟨strtokAll_eq text, hnum, naNameToIndex_eq (strtokAll_eq text) hnum⟩

/-- A new array holds the tokens of its text, also when there are none. -/
theorem naNewNameArray_holds (text : Str) : Holds (naNewNameArray text) (tokens naWhiteSpace text) := by
  unfold naNewNameArray
  split
  · rename_i h
    rw [tokens_of_strtok_none h]
    exact ⟨rfl, rfl, naNameToIndex_eq rfl rfl⟩
  · rename_i h
    exact holds_tokens h

/-- Names appended to a new array are found behind its own ones if and only if the array has a name already. -/
theorem append_holds_iff (s t : Str) : (∃ nameArray, naAppendToArray (naNewNameArray s) t = .ok nameArray ∧
    Holds nameArray (tokens naWhiteSpace s ++ tokens naWhiteSpace t)) ↔ tokens naWhiteSpace s ≠ [] := by
  unfold naNewNameArray naAppendToArray
  cases hs : strtok s with
  | none =>
    have hnil := tokens_of_strtok_none hs
    constructor
    · rintro ⟨nameArray, happend, -⟩
      cases happend
    · intro hne
      exact absurd hnil hne
  | some first =>
    obtain ⟨name, rest⟩ := first
    have hcons := tokens_of_strtok_some hs
    have hboth : tokens naWhiteSpace (s ++ ' ' :: t) = tokens naWhiteSpace s ++ tokens naWhiteSpace t :=
      tokens_append_sep rfl s t
    apply iff_of_true
    · dsimp only
      cases hst : strtok (s ++ ' ' :: t) with
      | none =>
        have hnone := tokens_of_strtok_none hst
        rw [hboth, hcons] at hnone
        exact absurd hnone (List.cons_ne_nil _ _)
      | some both =>
        refine ⟨_, rfl, ?_⟩
        rw [← hboth]
        exact holds_tokens hst
    · rw [hcons]
      exact List.cons_ne_nil _ _

/-- Nothing can be appended to an array made from blanks. -/
theorem blanks_not_appended : ¬ ∀ s t : Str, ∃ nameArray, naAppendToArray (naNewNameArray s) t = .ok nameArray ∧
    Holds nameArray (tokens naWhiteSpace s ++ tokens naWhiteSpace t) := by
  intro h
  obtain ⟨nameArray, happend, -⟩ := h [' '] ['a']
  have hfault : naAppendToArray (naNewNameArray [' ']) ['a'] = .error .null := rfl
  rw [hfault] at happend
  cases happend

end ParFlow
