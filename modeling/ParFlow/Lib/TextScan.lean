import Mathlib
import ParFlow.Lib.ByteStream

/-! Texts as bytes, and numbers read from them the way that formatted input reads them: white space before a
number is skipped, and white space after it when the format ends with a blank. -/

namespace TextScan

/-! ## Bytes of a text -/

def utf8 (text : List Char) : List UInt8 := text.flatMap String.utf8EncodeChar

@[simp] theorem utf8_nil : utf8 [] = [] := rfl

theorem utf8_cons (c : Char) (text : List Char) : utf8 (c :: text) = String.utf8EncodeChar c ++ utf8 text := rfl

@[simp] theorem utf8_append (s t : List Char) : utf8 (s ++ t) = utf8 s ++ utf8 t := List.flatMap_append

def IsAscii (text : List Char) : Prop := ∀ c ∈ text, c.utf8Size = 1

theorem all_isAscii (text : List Char) : (text.all fun c => c.toNat ≤ 127) = true ↔ IsAscii text := by
  rw [List.all_eq_true]
  apply forall₂_congr
  intro c _
  rw [Char.utf8Size_eq_one_iff, UInt32.le_iff_toNat_le, decide_eq_true_iff]
  rfl

instance (text : List Char) : Decidable (IsAscii text) := decidable_of_iff _ (all_isAscii text)

theorem length_le_length_utf8 (text : List Char) : text.length ≤ (utf8 text).length := by
  induction text with
  | nil => exact le_rfl
  | cons c rest ih =>
    have hsize : 1 ≤ c.utf8Size := Char.utf8Size_pos c
    rw [utf8_cons, List.length_append, String.length_utf8EncodeChar, List.length_cons]
    omega

/-- A text has as many bytes as characters only if it is plain ASCII. -/
theorem length_utf8_eq_iff (text : List Char) : (utf8 text).length = text.length ↔ IsAscii text := by
  induction text with
  | nil => simp [IsAscii]
  | cons c rest ih =>
    have hsize : 1 ≤ c.utf8Size := Char.utf8Size_pos c
    have hrest := length_le_length_utf8 rest
    rw [utf8_cons, List.length_append, String.length_utf8EncodeChar, List.length_cons, IsAscii, List.forall_mem_cons,
      ← IsAscii, ← ih]
    omega

theorem utf8_injective : Function.Injective utf8 := by
  intro s t h
  have hbytes : s.utf8Encode = t.utf8Encode := congrArg List.toByteArray h
  have hstring : String.ofList s = String.ofList t := by
    rw [← String.toByteArray_inj]
    simpa using hbytes
  simpa using congrArg String.toList hstring

theorem zero_notMem_utf8EncodeChar {c : Char} (h : c ≠ '\x00') : 0 ∉ String.utf8EncodeChar c := by
  have hne : ∀ n : ℕ, 0 < n → n < 256 → (0 : UInt8) ≠ UInt8.ofNat n := by
    intro n hpos hlt heq
    have hval := congrArg UInt8.toNat heq
    rw [UInt8.toNat_ofNat', Nat.mod_eq_of_lt hlt] at hval
    exact hpos.ne hval
  have hpos : 0 < c.val.toNat := by
    apply Nat.pos_of_ne_zero
    intro hzero
    exact h (Char.ext (UInt32.toNat_inj.mp hzero))
  unfold String.utf8EncodeChar
  intro hmem
  dsimp only at hmem
  split at hmem
  · exact hne _ hpos (by omega) (List.mem_singleton.mp hmem)
  · split at hmem
    · simp only [List.mem_cons, List.not_mem_nil, or_false] at hmem
      rcases hmem with hmem | hmem <;> exact hne _ (by omega) (by omega) hmem
    · split at hmem
      · simp only [List.mem_cons, List.not_mem_nil, or_false] at hmem
        rcases hmem with hmem | hmem | hmem <;> exact hne _ (by omega) (by omega) hmem
      · simp only [List.mem_cons, List.not_mem_nil, or_false] at hmem
        rcases hmem with hmem | hmem | hmem | hmem <;> exact hne _ (by omega) (by omega) hmem

theorem zero_notMem_utf8 {text : List Char} (h : '\x00' ∉ text) : 0 ∉ utf8 text := by
  intro hmem
  obtain ⟨c, hc, hzero⟩ := List.mem_flatMap.mp hmem
  exact zero_notMem_utf8EncodeChar (ne_of_mem_of_not_mem hc h) hzero

/-! ## Decimal numbers -/

def isSpace (b : UInt8) : Bool := (9 ≤ b ∧ b ≤ 13) ∨ b = 32

def isDigit (b : UInt8) : Bool := 48 ≤ b ∧ b ≤ 57

def digitsValue (digits : List UInt8) : ℕ := digits.foldl (fun n b => 10 * n + (b.toNat - 48)) 0

/-- The conversion `%d`. -/
def scanNumber (bytes : List UInt8) : Option (ℤ × List UInt8) :=
  let bytes := bytes.dropWhile isSpace
  let negative := bytes.head? = some 45
  let bytes := if negative ∨ bytes.head? = some 43 then bytes.tail else bytes
  let digits := bytes.takeWhile isDigit
  if digits = [] then none
  else some (if negative then -(digitsValue digits : ℤ) else digitsValue digits, bytes.dropWhile isDigit)

/-- The format `%d` with a blank after it. -/
def scanInt (bytes : List UInt8) : Option (ℤ × List UInt8) :=
  (scanNumber bytes).map fun r => (r.1, r.2.dropWhile isSpace)

def decimal (n : ℕ) : List Char := Nat.toDigits 10 n

theorem isDigit_of_char {c : Char} (h : c.isDigit) :
    String.utf8EncodeChar c = [c.val.toUInt8] ∧ isDigit c.val.toUInt8 ∧ c.val.toUInt8.toNat = c.toNat := by
  have hrange : 48 ≤ c.toNat ∧ c.toNat ≤ 57 := by
    simpa [Char.isDigit, UInt32.le_iff_toNat_le] using h
  have hsize : c.utf8Size = 1 := by
    rw [Char.utf8Size_eq_one_iff, UInt32.le_iff_toNat_le]
    exact hrange.2.trans (by decide)
  have hvalue : c.val.toUInt8.toNat = c.toNat := by
    rw [UInt32.toNat_toUInt8]
    exact Nat.mod_eq_of_lt (by rw [Char.toNat_val]; omega)
  refine ⟨String.utf8EncodeChar_eq_singleton hsize, ?_, hvalue⟩
  simp only [isDigit, decide_eq_true_eq, UInt8.le_iff_toNat_le, hvalue]
  exact hrange

/-- The bytes of a text of digits. -/
theorem utf8_digits {text : List Char} (h : ∀ c ∈ text, c.isDigit) (n : ℕ) :
    (utf8 text).length = text.length ∧ (∀ b ∈ utf8 text, isDigit b) ∧
      (utf8 text).foldl (fun n b => 10 * n + (b.toNat - 48)) n = Nat.ofDigitChars 10 text n := by
  induction text generalizing n with
  | nil => simp
  | cons c rest ih =>
    obtain ⟨hc, hrest⟩ := List.forall_mem_cons.mp h
    obtain ⟨hencode, hdigit, hvalue⟩ := isDigit_of_char hc
    obtain ⟨hlen, hdigits, hfold⟩ := ih hrest (10 * n + (c.toNat - 48))
    rw [utf8_cons, hencode, List.singleton_append]
    refine ⟨by simp [hlen], List.forall_mem_cons.mpr ⟨hdigit, hdigits⟩, ?_⟩
    rw [List.foldl_cons, hvalue, hfold, Nat.ofDigitChars_cons]
    rfl

theorem decimal_digits (n : ℕ) :
    utf8 (decimal n) ≠ [] ∧ (∀ b ∈ utf8 (decimal n), isDigit b) ∧ digitsValue (utf8 (decimal n)) = n := by
  have hdigits : ∀ c ∈ decimal n, c.isDigit := fun c hc => Nat.isDigit_of_mem_toDigits (by decide) le_rfl hc
  obtain ⟨hlen, hall, hfold⟩ := utf8_digits hdigits 0
  refine ⟨?_, hall, ?_⟩
  · intro hnil
    rw [hnil] at hlen
    exact absurd hlen.symm (Nat.length_toDigits_pos (b := 10) (n := n)).ne'
  · rw [digitsValue, hfold]
    exact Nat.ofDigitChars_ten_toDigits

theorem not_isSpace_of_isDigit {b : UInt8} (h : isDigit b) : isSpace b = false := by
  simp only [isDigit, decide_eq_true_eq, UInt8.le_iff_toNat_le] at h
  have hne : b ≠ 32 := by
    rintro rfl
    exact absurd h.1 (by decide)
  have hle : ¬ b ≤ 13 := by
    rw [UInt8.le_iff_toNat_le, not_le]
    exact lt_of_lt_of_le (by decide) h.1
  simp [isSpace, hne, hle]

theorem dropWhile_eq_self {p : UInt8 → Bool} {bytes : List UInt8} (h : ∀ b ∈ bytes.head?, p b = false) :
    bytes.dropWhile p = bytes := by
  cases bytes with
  | nil => rfl
  | cons b rest => exact List.dropWhile_cons_of_neg (by simp [h b rfl])

/-- What is read after a number does not start with white space. -/
theorem head_of_scanInt {bytes rest : List UInt8} {n : ℤ} (h : scanInt bytes = some (n, rest)) :
    ∀ b ∈ rest.head?, isSpace b = false := by
  unfold scanInt at h
  obtain ⟨r, -, hr⟩ := Option.map_eq_some_iff.mp h
  obtain ⟨-, rfl⟩ := Prod.mk.inj hr
  intro b hb
  have hne : r.2.dropWhile isSpace ≠ [] := by
    intro hnil
    simp [hnil] at hb
  have hhead := List.head_dropWhile_not isSpace hne
  rw [List.head?_eq_some_head hne, Option.mem_some] at hb
  rwa [hb] at hhead

/-- Digits end where the text goes on otherwise. -/
theorem span_digits {digits rest : List UInt8} (hall : ∀ b ∈ digits, isDigit b) (hrest : ∀ b ∈ rest.head?, isDigit b = false) :
    (digits ++ rest).takeWhile isDigit = digits ∧ (digits ++ rest).dropWhile isDigit = rest := by
  constructor
  · have hstop : rest.takeWhile isDigit = [] := by
      cases rest with
      | nil => rfl
      | cons b rest => exact List.takeWhile_cons_of_neg (by simp [hrest b rfl])
    rw [List.takeWhile_append_of_pos hall, hstop, List.append_nil]
  · rw [List.dropWhile_append_of_pos hall, dropWhile_eq_self hrest]

/-- Digits do not begin with white space or a sign. -/
theorem head_of_digits {digits : List UInt8} (rest : List UInt8) (hne : digits ≠ []) (hall : ∀ b ∈ digits, isDigit b) :
    (digits ++ rest).dropWhile isSpace = digits ++ rest ∧
      ∀ c : UInt8, isDigit c = false → (digits ++ rest).head? ≠ some c := by
  obtain ⟨d, ds, rfl⟩ := List.exists_cons_of_ne_nil hne
  have hd : isDigit d := hall d List.mem_cons_self
  constructor
  · exact dropWhile_eq_self (by simpa using not_isSpace_of_isDigit hd)
  · intro c hc hhead
    obtain rfl : d = c := by simpa using hhead
    rw [hd] at hc
    exact absurd hc (by decide)

/-- White space before a number is skipped, and its digits end where the text goes on otherwise. -/
theorem split_decimal {before rest : List UInt8} (n : ℕ) (hbefore : ∀ b ∈ before, isSpace b)
    (hrest : ∀ b ∈ rest.head?, isDigit b = false) :
    (before ++ (utf8 (decimal n) ++ rest)).dropWhile isSpace = utf8 (decimal n) ++ rest ∧
      (∀ sign : UInt8, isDigit sign = false → (utf8 (decimal n) ++ rest).head? ≠ some sign) ∧
      (utf8 (decimal n) ++ rest).takeWhile isDigit = utf8 (decimal n) ∧
      (utf8 (decimal n) ++ rest).dropWhile isDigit = rest := by
  obtain ⟨hne, hall, -⟩ := decimal_digits n
  obtain ⟨hskip, hhead⟩ := head_of_digits _ hne hall
  rw [List.dropWhile_append_of_pos hbefore]
  exact ⟨hskip, hhead, span_digits hall hrest⟩

theorem scanNumber_decimal {before rest : List UInt8} (n : ℕ) (hbefore : ∀ b ∈ before, isSpace b)
    (hrest : ∀ b ∈ rest.head?, isDigit b = false) :
    scanNumber (before ++ (utf8 (decimal n) ++ rest)) = some ((n : ℤ), rest) := by
  obtain ⟨hdigits, -, hvalue⟩ := decimal_digits n
  obtain ⟨hskip, hsign, htake, hdrop⟩ := split_decimal n hbefore hrest
  unfold scanNumber
  simp only [hskip, hsign 45 (by decide), hsign 43 (by decide), or_self, if_false, htake, hdrop, hdigits, hvalue]

theorem not_isDigit_of_isSpace {b : UInt8} (h : isSpace b) : isDigit b = false := by
  by_contra hdigit
  have hspace := not_isSpace_of_isDigit (Bool.of_not_eq_false hdigit)
  rw [h] at hspace
  exact absurd hspace (by decide)

/-- A number in decimal notation, with white space around it. -/
theorem scanInt_decimal {before after rest : List UInt8} (n : ℕ) (hbefore : ∀ b ∈ before, isSpace b)
    (hne : after ≠ []) (hafter : ∀ b ∈ after, isSpace b) (hrest : ∀ b ∈ rest.head?, isSpace b = false) :
    scanInt (before ++ (utf8 (decimal n) ++ (after ++ rest))) = some ((n : ℤ), rest) := by
  have hstop : ∀ b ∈ (after ++ rest).head?, isDigit b = false := by
    obtain ⟨a, as, rfl⟩ := List.exists_cons_of_ne_nil hne
    intro b hb
    rw [← Option.some.inj (show some a = some b from hb)]
    exact not_isDigit_of_isSpace (hafter a List.mem_cons_self)
  unfold scanInt
  rw [scanNumber_decimal n hbefore hstop, Option.map_some, List.dropWhile_append_of_pos hafter, dropWhile_eq_self hrest]

end TextScan

/-! Text read word by word and number by number, the way that a stream is read with `>>`: white space before an
item is skipped, and the item ends where the next white space begins. -/

namespace TextStream

open TextScan ByteFile

/-! ## Items -/

def isWordByte (b : UInt8) : Bool := !isSpace b

def takeWord : Reader (List UInt8) := fun bytes =>
  let bytes := bytes.dropWhile isSpace
  if bytes.takeWhile isWordByte = [] then none else some (bytes.takeWhile isWordByte, bytes.dropWhile isWordByte)

def takeInt : Reader ℤ := scanNumber

/-- The exponent behind the mantissa of a number. -/
def scanExponent (mantissa : ℚ) (bytes : List UInt8) : Option (ℚ × List UInt8) :=
  if bytes.head? = some 101 ∨ bytes.head? = some 69 then
    if bytes.tail.head?.any isSpace then none
    else (scanNumber bytes.tail).map fun r => (mantissa * 10 ^ r.1, r.2)
  else some (mantissa, bytes)

/-- The fraction behind the digits of a number, and what comes after it. -/
def scanFraction (negative : Bool) (digits bytes : List UInt8) : Option (ℚ × List UInt8) :=
  let fraction := if bytes.head? = some 46 then bytes.tail.takeWhile isDigit else []
  let bytes := if bytes.head? = some 46 then bytes.tail.dropWhile isDigit else bytes
  if digits ++ fraction = [] then none
  else
    let mantissa : ℚ := digitsValue (digits ++ fraction) / 10 ^ fraction.length
    scanExponent (if negative then -mantissa else mantissa) bytes

/-- A number with an optional sign, fraction and exponent, exactly. -/
def takeDouble : Reader ℚ := fun bytes =>
  let bytes := bytes.dropWhile isSpace
  let negative := bytes.head? = some 45
  let bytes := if negative ∨ bytes.head? = some 43 then bytes.tail else bytes
  scanFraction negative (bytes.takeWhile isDigit) (bytes.dropWhile isDigit)

/-! ## What a program reads -/

/-- The text is over, or goes on with white space. -/
def BlankAhead (bytes : List UInt8) : Prop := ∀ b ∈ bytes.head?, isSpace b

/-- The program reads these bytes and returns the value, when an item ends behind them. -/
def Scans {α : Type} (m : Reader α) (bytes : List UInt8) (a : α) : Prop :=
  ∀ rest, BlankAhead rest → m (bytes ++ rest) = some (a, rest)

section Scans

variable {α β : Type} {m : Reader α} {k : α → Reader β} {bs cs blanks : List UInt8} {a : α} {b : β}

theorem BlankAhead.append (hbs : BlankAhead bs) (hcs : BlankAhead cs) : BlankAhead (bs ++ cs) := by
  cases bs with
  | nil => exact hcs
  | cons b bs => exact hbs

theorem blankAhead_of_blanks (hne : blanks ≠ []) (hblanks : ∀ b ∈ blanks, isSpace b) : BlankAhead (blanks ++ bs) := by
  obtain ⟨c, cs, rfl⟩ := List.exists_cons_of_ne_nil hne
  intro b hb
  rw [← Option.some.inj (show some c = some b from hb)]
  exact hblanks c List.mem_cons_self

theorem blankAhead_nil : BlankAhead [] := fun b hb => absurd hb (by simp)

theorem Scans.pure (a : α) : Scans (Pure.pure a : Reader α) [] a := fun _ _ => rfl

theorem Scans.bind (hm : Scans m bs a) (hcs : BlankAhead cs) (hk : Scans (k a) cs b) : Scans (m >>= k) (bs ++ cs) b := by
  intro rest hrest
  show (m (bs ++ cs ++ rest)).bind _ = _
  rw [List.append_assoc, hm _ (hcs.append hrest)]
  exact hk rest hrest

theorem Scans.map (hm : Scans m bs a) (f : α → β) : Scans (m >>= fun a => Pure.pure (f a)) bs (f a) := by
  have h := hm.bind (k := fun a => Pure.pure (f a)) blankAhead_nil (Scans.pure (f a))
  rwa [List.append_nil] at h

/-- What is read begins with white space, so that it can come behind another item. -/
structure ScansItem {α : Type} (m : Reader α) (bytes : List UInt8) (a : α) : Prop where
  scans : Scans m bytes a
  blank : BlankAhead bytes

theorem ScansItem.pure (a : α) : ScansItem (Pure.pure a : Reader α) [] a := ⟨Scans.pure a, blankAhead_nil⟩

theorem ScansItem.bind (hm : ScansItem m bs a) (hk : ScansItem (k a) cs b) : ScansItem (m >>= k) (bs ++ cs) b :=
  ⟨hm.scans.bind hk.blank hk.scans, hm.blank.append hk.blank⟩

theorem Scans.bind_item (hm : Scans m bs a) (hk : ScansItem (k a) cs b) : Scans (m >>= k) (bs ++ cs) b :=
  hm.bind hk.blank hk.scans

theorem ScansItem.map (hm : ScansItem m bs a) (f : α → β) : ScansItem (m >>= fun a => Pure.pure (f a)) bs (f a) :=
  ⟨hm.scans.map f, hm.blank⟩

/-- A loop over items, where an invariant fixes what a round reads. -/
theorem ScansItem.foldlM {σ ι : Type} {f : σ → ι → Reader σ} {g : σ → ι → σ} {enc : ι → List UInt8} (I : σ → Prop)
    {l : List ι} (h : ∀ x ∈ l, ∀ st, I st → ScansItem (f st x) (enc x) (g st x)) (hg : ∀ x ∈ l, ∀ st, I st → I (g st x))
    {st : σ} (hst : I st) : ScansItem (l.foldlM f st) (l.flatMap enc) (l.foldl g st) := by
  induction l generalizing st with
  | nil => exact ScansItem.pure st
  | cons x l ih =>
    rw [List.foldlM_cons, List.flatMap_cons, List.foldl_cons]
    apply (h x List.mem_cons_self st hst).bind
    exact ih (fun y hy => h y (List.mem_cons_of_mem x hy)) (fun y hy => hg y (List.mem_cons_of_mem x hy))
      (hg x List.mem_cons_self st hst)

theorem blankAhead_stop {rest : List UInt8} (h : BlankAhead rest) : ∀ b ∈ rest.head?, isDigit b = false := fun b hb =>
  not_isDigit_of_isSpace (h b hb)

theorem scans_takeWord {word : List UInt8} (hblanks : ∀ b ∈ blanks, isSpace b) (hne : word ≠ [])
    (hword : ∀ b ∈ word, isSpace b = false) : Scans takeWord (blanks ++ word) word := by
  have hbytes : ∀ b ∈ word, isWordByte b := by
    intro b hb
    unfold isWordByte
    rw [hword b hb]
    rfl
  obtain ⟨c, cs, rfl⟩ := List.exists_cons_of_ne_nil hne
  intro rest hrest
  have hskip : (blanks ++ (c :: cs) ++ rest).dropWhile isSpace = (c :: cs) ++ rest := by
    rw [List.append_assoc, List.dropWhile_append_of_pos hblanks]
    exact List.dropWhile_cons_of_neg (by rw [hword c List.mem_cons_self]; exact Bool.false_ne_true)
  have hstop : ∀ b ∈ rest.head?, isWordByte b = false := by
    intro b hb
    unfold isWordByte
    rw [hrest b hb]
    rfl
  have htake : ((c :: cs) ++ rest).takeWhile isWordByte = c :: cs := by
    have hrest : rest.takeWhile isWordByte = [] := by
      cases rest with
      | nil => rfl
      | cons b rest => exact List.takeWhile_cons_of_neg (by rw [hstop b rfl]; exact Bool.false_ne_true)
    rw [List.takeWhile_append_of_pos hbytes, hrest, List.append_nil]
  have hdrop : ((c :: cs) ++ rest).dropWhile isWordByte = rest := by
    rw [List.dropWhile_append_of_pos hbytes, dropWhile_eq_self hstop]
  unfold takeWord
  dsimp only
  rw [hskip, htake, hdrop, if_neg (List.cons_ne_nil c cs)]

theorem scans_takeInt (n : ℕ) (hblanks : ∀ b ∈ blanks, isSpace b) : Scans takeInt (blanks ++ utf8 (decimal n)) (n : ℤ) := by
  intro rest hrest
  rw [List.append_assoc]
  exact scanNumber_decimal n hblanks (blankAhead_stop hrest)

/-- White space in front of a number makes no difference. -/
theorem Scans.skip_blanks {x : ℚ} (h : Scans takeDouble bs x) (hblanks : ∀ b ∈ blanks, isSpace b) :
    Scans takeDouble (blanks ++ bs) x := by
  intro rest hrest
  rw [← h rest hrest, List.append_assoc]
  unfold takeDouble
  rw [List.dropWhile_append_of_pos hblanks]

theorem scans_takeDouble (n : ℕ) (hblanks : ∀ b ∈ blanks, isSpace b) :
    Scans takeDouble (blanks ++ utf8 (decimal n)) (n : ℚ) := by
  intro rest hrest
  obtain ⟨hdigits, -, hvalue⟩ := decimal_digits n
  obtain ⟨hskip, hsign, htake, hdrop⟩ := split_decimal n hblanks (blankAhead_stop hrest)
  have hhead : ∀ c : UInt8, isSpace c = false → rest.head? ≠ some c := by
    intro c hc hsome
    rw [hrest c hsome] at hc
    exact absurd hc (by decide)
  have hend : ∀ q : ℚ, scanExponent q rest = some (q, rest) := by
    intro q
    unfold scanExponent
    rw [if_neg (not_or.mpr ⟨hhead 101 (by decide), hhead 69 (by decide)⟩)]
  unfold takeDouble scanFraction
  simp only [List.append_assoc, hskip, hsign 45 (by decide), hsign 43 (by decide), or_self, if_false, htake, hdrop,
    hhead 46 (by decide), List.append_nil, hdigits, hvalue, List.length_nil, pow_zero, div_one, decide_false,
    Bool.false_eq_true, hend]

end Scans

end TextStream
