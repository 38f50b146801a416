import ParFlow.Lib.TextScan

/-! Numbers as Python prints them, and their values when they are read again. A number is an integer over a power of
ten, and its text has no more digits than it needs. -/

namespace NumberText

open TextScan TextStream

/-! ## Texts -/

def signText (m : ℤ) : List Char := if m < 0 then ['-'] else []

def intText (m : ℤ) : List Char := signText m ++ decimal m.natAbs

/-- The digits without the zeros at their end. -/
def stripZeros (digits : List Char) : List Char := digits.rdropWhile (· = '0')

/-- A point before the last places, and a digit on either side of it. -/
def pointText (digits : List Char) (places : ℕ) : List Char :=
  let digits := List.replicate (places + 1 - digits.length) '0' ++ digits
  let fraction := stripZeros (digits.drop (digits.length - places))
  digits.take (digits.length - places) ++ '.' :: (if fraction = [] then ['0'] else fraction)

/-- The first digit before the point, and an exponent of two digits at least. -/
def exponentText (digits : List Char) (e : ℤ) : List Char :=
  let mantissa := stripZeros digits
  let exponent := decimal e.natAbs
  mantissa.take 1 ++ (if mantissa.length ≤ 1 then [] else '.' :: mantissa.drop 1) ++
    'e' :: (if e < 0 then '-' else '+') :: (List.replicate (2 - exponent.length) '0' ++ exponent)

/-- `repr` of `m / 10 ^ places`. -/
def floatText (m : ℤ) (places : ℕ) : List Char :=
  let digits := decimal m.natAbs
  let e : ℤ := digits.length - 1 - places
  signText m ++ if m ≠ 0 ∧ (e < -4 ∨ 16 ≤ e) then exponentText digits e else pointText digits places

/-- A text that is a number as a whole. -/
def parseNumber (text : List Char) : Option ℚ :=
  match takeDouble (utf8 text) with
  | some (x, []) => some x
  | _ => none

/-! ## Digits -/

section Digits

variable {ds es : List Char} {n places : ℕ}

def AllDigits (ds : List Char) : Prop := ∀ c ∈ ds, c.isDigit

/-- The value of digits behind each other. -/
def digitsNat (ds : List Char) : ℕ := Nat.ofDigitChars 10 ds 0

theorem AllDigits.append (hds : AllDigits ds) (hes : AllDigits es) : AllDigits (ds ++ es) := fun c hc =>
  (List.mem_append.mp hc).elim (hds c) (hes c)

theorem AllDigits.subset (hds : AllDigits ds) (h : es ⊆ ds) : AllDigits es := fun c hc => hds c (h hc)

theorem allDigits_decimal (n : ℕ) : AllDigits (decimal n) := fun _ hc => Nat.isDigit_of_mem_toDigits (by decide) le_rfl hc

theorem allDigits_zeros (n : ℕ) : AllDigits (List.replicate n '0') := by
  intro c hc
  rw [List.eq_of_mem_replicate hc]
  rfl

theorem digitsNat_decimal (n : ℕ) : digitsNat (decimal n) = n := Nat.ofDigitChars_ten_toDigits

theorem digitsNat_append (ds es : List Char) : digitsNat (ds ++ es) = 10 ^ es.length * digitsNat ds + digitsNat es := by
  unfold digitsNat
  rw [Nat.ofDigitChars_append, Nat.ofDigitChars_eq_ofDigitChars_zero]

theorem digitsNat_zeros_append (n : ℕ) (ds : List Char) : digitsNat (List.replicate n '0' ++ ds) = digitsNat ds := by
  unfold digitsNat
  rw [Nat.ofDigitChars_append, Nat.ofDigitChars_replicate_zero, mul_zero]

/-- The zeros at the end are a power of ten. -/
theorem stripZeros_spec (ds : List Char) : ∃ z, ds = stripZeros ds ++ List.replicate z '0' := by
  unfold stripZeros
  induction ds using List.reverseRecOn with
  | nil => exact ⟨0, rfl⟩
  | append_singleton ds c ih =>
    by_cases hc : c = '0'
    · obtain ⟨z, hz⟩ := ih
      refine ⟨z + 1, ?_⟩
      rw [List.rdropWhile_concat, if_pos (decide_eq_true hc), List.replicate_succ', ← List.append_assoc, ← hz, hc]
    · rw [List.rdropWhile_concat, if_neg (by rwa [decide_eq_true_iff])]
      exact ⟨0, (List.append_nil _).symm⟩

/-- The value of digits with some of them behind the point. -/
def pointValue (ds : List Char) (places : ℕ) : ℚ := digitsNat ds / 10 ^ places

theorem pointValue_append_zeros (ds : List Char) (places z : ℕ) :
    pointValue (ds ++ List.replicate z '0') (places + z) = pointValue ds places := by
  have hten : (10 : ℚ) ^ z ≠ 0 := by positivity
  unfold pointValue digitsNat
  rw [Nat.ofDigitChars_append, Nat.ofDigitChars_replicate_zero, pow_add]
  push_cast
  rw [mul_comm ((10 : ℚ) ^ z), mul_div_mul_right _ _ hten]

end Digits

/-! ## Reading -/

section Reading

variable {ip fp : List Char} {rest : List UInt8} {neg : Bool}

theorem digits_bytes {ds : List Char} (h : AllDigits ds) : (∀ b ∈ utf8 ds, isDigit b) ∧ digitsValue (utf8 ds) = digitsNat ds ∧
    (utf8 ds).length = ds.length := by
  obtain ⟨hlen, hall, hfold⟩ := utf8_digits h 0
  exact ⟨hall, hfold, hlen⟩

theorem notDigit_nil : ∀ b ∈ ([] : List UInt8).head?, isDigit b = false := by simp

def signBytes (negative : Bool) : List UInt8 := if negative then [45] else []

def signed (negative : Bool) (x : ℚ) : ℚ := if negative then -x else x

/-- The sign and the digits of a number. -/
theorem takeDouble_digits (hip : AllDigits ip) (hne : ip ≠ []) (negative : Bool)
    (hrest : ∀ b ∈ rest.head?, isDigit b = false) :
    takeDouble (signBytes negative ++ (utf8 ip ++ rest)) = scanFraction negative (utf8 ip) rest := by
  obtain ⟨hall, -, hlen⟩ := digits_bytes hip
  have hbytes : utf8 ip ≠ [] := by
    intro hnil
    rw [hnil] at hlen
    exact hne (List.eq_nil_of_length_eq_zero hlen.symm)
  obtain ⟨hskip, hhead⟩ := head_of_digits rest hbytes hall
  obtain ⟨htake, hdrop⟩ := span_digits hall hrest
  unfold takeDouble signBytes
  cases negative with
  | false =>
    simp only [Bool.false_eq_true, if_false, List.nil_append, hskip, hhead 45 (by decide), hhead 43 (by decide), or_self,
      htake, hdrop, decide_false]
  | true =>
    have hminus : (45 :: (utf8 ip ++ rest)).dropWhile isSpace = 45 :: (utf8 ip ++ rest) :=
      dropWhile_eq_self fun b hb => by rw [← Option.some.inj (show some 45 = some b from hb)]; rfl
    simp only [if_true, List.singleton_append, hminus, List.head?_cons, true_or, List.tail_cons, htake, hdrop, decide_true]

/-- Digits behind a point. -/
theorem scanFraction_point (hip : AllDigits ip) (hfp : AllDigits fp) (hne : ip ≠ []) (negative : Bool)
    (hrest : ∀ b ∈ rest.head?, isDigit b = false) : scanFraction negative (utf8 ip) (46 :: (utf8 fp ++ rest)) =
      scanExponent (signed negative (pointValue (ip ++ fp) fp.length)) rest := by
  obtain ⟨hall, -, hlen⟩ := digits_bytes hfp
  obtain ⟨-, hvalue, hsum⟩ := digits_bytes (hip.append hfp)
  obtain ⟨htake, hdrop⟩ := span_digits hall hrest
  rw [utf8_append] at hvalue hsum
  have hsome : utf8 ip ++ utf8 fp ≠ [] := by
    intro hnil
    rw [hnil] at hsum
    exact hne (List.append_eq_nil_iff.mp (List.eq_nil_of_length_eq_zero hsum.symm)).1
  unfold scanFraction signed pointValue
  simp only [List.head?_cons, if_true, List.tail_cons, htake, hdrop, hsome, if_false, hvalue, hlen]

/-- No point. -/
theorem scanFraction_none (hip : AllDigits ip) (hne : ip ≠ []) (negative : Bool) (hrest : rest.head? ≠ some 46) :
    scanFraction negative (utf8 ip) rest = scanExponent (signed negative (pointValue ip 0)) rest := by
  obtain ⟨-, hvalue, hlen⟩ := digits_bytes hip
  have hsome : utf8 ip ≠ [] := by
    intro hnil
    rw [hnil] at hlen
    exact hne (List.eq_nil_of_length_eq_zero hlen.symm)
  unfold scanFraction signed pointValue
  simp only [hrest, if_false, List.append_nil, hsome, hvalue, List.length_nil]

theorem utf8_signText (m : ℤ) : utf8 (signText m) = signBytes (decide (m < 0)) := by
  unfold signText signBytes
  by_cases h : m < 0
  · rw [if_pos h, if_pos (decide_eq_true h)]
    rfl
  · rw [if_neg h, if_neg (by rwa [decide_eq_true_iff])]
    rfl

theorem signed_natAbs (m : ℤ) (x : ℚ) : signed (decide (m < 0)) (m.natAbs * x) = m * x := by
  unfold signed
  rw [Nat.cast_natAbs]
  by_cases h : m < 0
  · rw [if_pos (decide_eq_true h), abs_of_neg h]
    push_cast
    ring
  · rw [if_neg (by rwa [decide_eq_true_iff]), abs_of_nonneg (not_lt.mp h)]

theorem parseNumber_eq {text : List Char} {x : ℚ} (h : takeDouble (utf8 text) = some (x, [])) : parseNumber text = some x := by
  unfold parseNumber
  rw [h]

theorem scanExponent_nil (x : ℚ) : scanExponent x [] = some (x, []) := rfl

/-- An integer is read in front of white space. -/
theorem scans_intText (m : ℤ) : Scans takeDouble (utf8 (intText m)) (m : ℚ) := by
  intro rest hrest
  have hne : decimal m.natAbs ≠ [] := Nat.toDigits_ne_nil
  have hhead : ∀ c : UInt8, isSpace c = false → rest.head? ≠ some c := by
    intro c hc hsome
    rw [hrest c hsome] at hc
    exact absurd hc (by decide)
  have hend : ∀ x : ℚ, scanExponent x rest = some (x, rest) := by
    intro x
    unfold scanExponent
    rw [if_neg (not_or.mpr ⟨hhead 101 (by decide), hhead 69 (by decide)⟩)]
  have hvalue : signed (decide (m < 0)) (pointValue (decimal m.natAbs) 0) = m := by
    have h := signed_natAbs m 1
    unfold pointValue
    rw [digitsNat_decimal, pow_zero, div_one]
    rwa [mul_one, mul_one] at h
  rw [intText, utf8_append, utf8_signText, List.append_assoc,
    takeDouble_digits (allDigits_decimal m.natAbs) hne (decide (m < 0)) (blankAhead_stop hrest),
    scanFraction_none (allDigits_decimal _) hne _ (hhead 46 (by decide)), hend, hvalue]

/-- An integer is read back. -/
theorem parseNumber_intText (m : ℤ) : parseNumber (intText m) = some (m : ℚ) := by
  have hread := scans_intText m [] blankAhead_nil
  rw [List.append_nil] at hread
  exact parseNumber_eq hread

/-- The number behind the letter of an exponent. -/
theorem scanNumber_digits {ds : List Char} (hds : AllDigits ds) (hne : ds ≠ []) (negative : Bool) :
    scanNumber ((if negative then 45 else 43) :: utf8 ds) =
      some (if negative then -(digitsNat ds : ℤ) else digitsNat ds, []) := by
  obtain ⟨hall, hvalue, hlen⟩ := digits_bytes hds
  have hbytes : utf8 ds ≠ [] := by
    intro hnil
    rw [hnil] at hlen
    exact hne (List.eq_nil_of_length_eq_zero hlen.symm)
  have hsign : ∀ b : UInt8, isSpace b = false → (b :: utf8 ds).dropWhile isSpace = b :: utf8 ds := fun b hb =>
    List.dropWhile_cons_of_neg (by rw [hb]; exact Bool.false_ne_true)
  obtain ⟨htake, hdrop⟩ := span_digits hall notDigit_nil
  rw [List.append_nil] at htake hdrop
  have hplus : (43 : UInt8) ≠ 45 := by decide
  unfold scanNumber
  cases negative with
  | false =>
    simp only [Bool.false_eq_true, if_false, hsign 43 rfl, List.head?_cons, Option.some.injEq, hplus, false_or, if_true,
      List.tail_cons, htake, hdrop, hbytes, hvalue]
  | true =>
    simp only [if_true, hsign 45 rfl, List.head?_cons, true_or, List.tail_cons, htake, hdrop, hbytes, if_false, hvalue]

theorem scanExponent_digits {ds : List Char} (hds : AllDigits ds) (hne : ds ≠ []) (x : ℚ) (negative : Bool) :
    scanExponent x (101 :: (if negative then 45 else 43) :: utf8 ds) =
      some (x * 10 ^ (if negative then -(digitsNat ds : ℤ) else digitsNat ds), []) := by
  have hblank : (List.head? ((if negative then (45 : UInt8) else 43) :: utf8 ds)).any isSpace = false := by
    cases negative <;> rfl
  unfold scanExponent
  rw [List.tail_cons, scanNumber_digits hds hne]
  simp only [List.head?_cons, true_or, if_true, List.head?_cons ▸ hblank, Bool.false_eq_true, if_false, Option.map_some]

end Reading

/-! ## Numbers with a point -/

section Floats

variable {ds : List Char} {places : ℕ}

theorem digitsNat_stripZeros (ds : List Char) :
    ∃ z, digitsNat ds = 10 ^ z * digitsNat (stripZeros ds) ∧ ds.length = (stripZeros ds).length + z := by
  obtain ⟨z, hz⟩ := stripZeros_spec ds
  use z
  constructor
  · conv_lhs => rw [hz]
    unfold digitsNat
    rw [Nat.ofDigitChars_append, Nat.ofDigitChars_replicate_zero]
  · conv_lhs => rw [hz]
    rw [List.length_append, List.length_replicate]

theorem AllDigits.stripZeros (hds : AllDigits ds) : AllDigits (stripZeros ds) :=
  hds.subset (List.rdropWhile_prefix _ _).subset

/-- The digits on both sides of the point have the value of all of them. -/
theorem pointText_spec (hds : AllDigits ds) (places : ℕ) : ∃ ip fp, pointText ds places = ip ++ '.' :: fp ∧ AllDigits ip ∧
    AllDigits fp ∧ ip ≠ [] ∧ pointValue (ip ++ fp) fp.length = pointValue ds places := by
  have hpadded : AllDigits (List.replicate (places + 1 - ds.length) '0' ++ ds) := (allDigits_zeros _).append hds
  have hlen : places + 1 ≤ (List.replicate (places + 1 - ds.length) '0' ++ ds).length := by
    rw [List.length_append, List.length_replicate]
    omega
  have hzeros : digitsNat (List.replicate (places + 1 - ds.length) '0' ++ ds) = digitsNat ds := digitsNat_zeros_append _ _
  unfold pointText
  dsimp only
  generalize List.replicate (places + 1 - ds.length) '0' ++ ds = padded at hpadded hlen hzeros
  obtain ⟨z, hz⟩ := stripZeros_spec (padded.drop (padded.length - places))
  have hfraction : AllDigits (stripZeros (padded.drop (padded.length - places))) :=
    (hpadded.subset (List.drop_subset _ _)).stripZeros
  have hplaces : (stripZeros (padded.drop (padded.length - places))).length + z = places := by
    have h := congrArg List.length hz
    rw [List.length_append, List.length_replicate, List.length_drop] at h
    omega
  have hip : padded.take (padded.length - places) ≠ [] := by
    intro hnil
    have h := congrArg List.length hnil
    rw [List.length_take, List.length_nil] at h
    omega
  -- the zeros that were left out count for nothing
  have hvalue : pointValue (padded.take (padded.length - places) ++ stripZeros (padded.drop (padded.length - places)))
      (stripZeros (padded.drop (padded.length - places))).length = pointValue ds places := by
    rw [← pointValue_append_zeros _ _ z, List.append_assoc, ← hz, List.take_append_drop, hplaces]
    unfold pointValue
    rw [hzeros]
  refine ⟨_, _, rfl, hpadded.subset (List.take_subset _ _), ?_, hip, ?_⟩
  · split_ifs with hnil
    · exact allDigits_zeros 1
    · exact hfraction
  · split_ifs with hnil
    · rw [hnil, List.append_nil] at hvalue
      rw [← hvalue]
      exact pointValue_append_zeros _ 0 1
    · exact hvalue

/-- The mantissa of a number that is not zero, and its exponent. -/
theorem exponentText_spec (hds : AllDigits ds) (hne : digitsNat ds ≠ 0) (e : ℤ) : ∃ d fp ex,
    exponentText ds e = d :: (if fp = [] then [] else '.' :: fp) ++ 'e' :: (if e < 0 then '-' else '+') :: ex ∧
      AllDigits (d :: fp) ∧ AllDigits ex ∧ ex ≠ [] ∧ digitsNat ex = e.natAbs ∧
      ∃ z, digitsNat ds = 10 ^ z * digitsNat (d :: fp) ∧ ds.length = fp.length + 1 + z := by
  obtain ⟨z, hvalue, hlen⟩ := digitsNat_stripZeros ds
  have hmantissa := hds.stripZeros
  obtain ⟨d, fp, hcons⟩ : ∃ d fp, stripZeros ds = d :: fp := by
    apply List.exists_cons_of_ne_nil
    intro hnil
    rw [hnil] at hvalue
    exact hne hvalue
  rw [hcons] at hmantissa hvalue hlen
  refine ⟨d, fp, _, ?_, hmantissa, (allDigits_zeros (2 - (decimal e.natAbs).length)).append (allDigits_decimal e.natAbs), ?_,
    ?_, z, hvalue, hlen⟩
  · unfold exponentText
    rw [hcons]
    cases fp with
    | nil => rfl
    | cons f fp => rfl
  · intro hnil
    exact Nat.toDigits_ne_nil (List.append_eq_nil_iff.mp hnil).2
  · rw [digitsNat_zeros_append, digitsNat_decimal]

theorem signed_mul (negative : Bool) (x y : ℚ) : signed negative x * y = signed negative (x * y) := by
  cases negative with
  | false => rfl
  | true => exact neg_mul x y

/-- The part behind the digits is no digit. -/
theorem notDigit_head {b : UInt8} {bytes : List UInt8} (h : isDigit b = false) : ∀ c ∈ (b :: bytes).head?, isDigit c = false :=
  fun c hc => by rwa [← Option.some.inj (show some b = some c from hc)]

/-- A number with a point is read back. -/
theorem parseNumber_pointText (m : ℤ) (places : ℕ) :
    parseNumber (signText m ++ pointText (decimal m.natAbs) places) = some (m / 10 ^ places : ℚ) := by
  obtain ⟨ip, fp, htext, hip, hfp, hne, hvalue⟩ := pointText_spec (allDigits_decimal m.natAbs) places
  have hpoint : utf8 (ip ++ '.' :: fp) = utf8 ip ++ 46 :: (utf8 fp ++ []) := by
    rw [utf8_append, List.append_nil]
    rfl
  have hsigned := signed_natAbs m (10 ^ places)⁻¹
  apply parseNumber_eq
  rw [htext, utf8_append, utf8_signText, hpoint, takeDouble_digits hip hne _ (notDigit_head rfl),
    scanFraction_point hip hfp hne _ (by simp), scanExponent_nil, hvalue]
  unfold pointValue
  rw [digitsNat_decimal, div_eq_mul_inv, hsigned, ← div_eq_mul_inv]

theorem parseNumber_exponentText {m : ℤ} (hm : m ≠ 0) (places : ℕ) :
    parseNumber (signText m ++ exponentText (decimal m.natAbs) ((decimal m.natAbs).length - 1 - places)) =
      some (m / 10 ^ places : ℚ) := by
  have hnat : digitsNat (decimal m.natAbs) ≠ 0 := by rwa [digitsNat_decimal, Int.natAbs_ne_zero]
  obtain ⟨d, fp, ex, htext, hmantissa, hex, hne, hexp, z, hvalue, hlen⟩ :=
    exponentText_spec (allDigits_decimal m.natAbs) hnat ((decimal m.natAbs).length - 1 - places)
  set e : ℤ := (decimal m.natAbs).length - 1 - places with he
  have hd : AllDigits [d] := hmantissa.subset (by simp)
  have hfp : AllDigits fp := hmantissa.subset (by simp)
  have hsign : utf8 ('e' :: (if e < 0 then '-' else '+') :: ex) =
      101 :: (if decide (e < 0) then 45 else 43) :: utf8 ex := by
    by_cases h : e < 0
    · rw [if_pos h, if_pos (decide_eq_true h)]
      rfl
    · rw [if_neg h, if_neg (by rwa [decide_eq_true_iff])]
      rfl
  have hpower : (if decide (e < 0) then -(digitsNat ex : ℤ) else digitsNat ex) = e := by
    rw [hexp]
    split_ifs with h <;> simp only [decide_eq_true_eq] at h <;> omega
  -- the scaled mantissa is the number
  have hscaled : signed (decide (m < 0)) (pointValue (d :: fp) fp.length) * 10 ^ e = (m / 10 ^ places : ℚ) := by
    have hten : (10 : ℚ) ≠ 0 := by norm_num
    have hexpand : e = z + fp.length - places := by rw [he, hlen]; push_cast; ring
    have hmagnitude : pointValue (d :: fp) fp.length * 10 ^ e = (m.natAbs : ℚ) * (10 ^ places)⁻¹ := by
      rw [digitsNat_decimal] at hvalue
      unfold pointValue
      rw [hvalue, hexpand, zpow_sub₀ hten, zpow_add₀ hten, zpow_natCast, zpow_natCast, zpow_natCast]
      push_cast
      field_simp
    rw [signed_mul, hmagnitude, signed_natAbs, ← div_eq_mul_inv]
  apply parseNumber_eq
  rw [htext, utf8_append, utf8_signText, utf8_append]
  by_cases hnil : fp = []
  · subst hnil
    have hbytes : utf8 (d :: (if ([] : List Char) = [] then [] else '.' :: [])) = utf8 [d] := rfl
    rw [hbytes, hsign, takeDouble_digits hd (by simp) _ (notDigit_head rfl), scanFraction_none hd (by simp) _ (by simp),
      scanExponent_digits hex hne, hpower]
    exact congrArg (fun x => some (x, [])) hscaled
  · have hbytes : utf8 (d :: (if fp = [] then [] else '.' :: fp)) = utf8 [d] ++ 46 :: utf8 fp := by
      rw [if_neg hnil, ← List.singleton_append, utf8_append]
      rfl
    rw [hbytes, hsign, List.append_assoc, List.cons_append, takeDouble_digits hd (by simp) _ (notDigit_head rfl),
      scanFraction_point hd hfp (by simp) _ (notDigit_head rfl), scanExponent_digits hex hne, hpower]
    exact congrArg (fun x => some (x, [])) hscaled

/-- What is printed is read back. -/
theorem parseNumber_floatText (m : ℤ) (places : ℕ) : parseNumber (floatText m places) = some (m / 10 ^ places : ℚ) := by
  unfold floatText
  dsimp only
  split_ifs with h
  · exact parseNumber_exponentText h.1 places
  · exact parseNumber_pointText m places

end Floats

/-! ## A fixed number of places -/

section Fixed

/-- A point before the last places, whose zeros are kept. -/
def fixedText (digits : List Char) (places : ℕ) : List Char :=
  let digits := List.replicate (places + 1 - digits.length) '0' ++ digits
  digits.take (digits.length - places) ++ '.' :: digits.drop (digits.length - places)

/-- The nearest integer, and the even one of two. -/
def roundHalfEven (x : ℚ) : ℤ :=
  if 2 * Int.fract x < 1 ∨ 2 * Int.fract x = 1 ∧ Even ⌊x⌋ then ⌊x⌋ else ⌊x⌋ + 1

/-- `%f` with a number of places. -/
def formatFixed (places : ℕ) (x : ℚ) : List Char :=
  (if x < 0 then ['-'] else []) ++ fixedText (decimal (roundHalfEven (|x| * 10 ^ places)).natAbs) places

theorem roundHalfEven_intCast (m : ℤ) : roundHalfEven m = m := by
  unfold roundHalfEven
  rw [Int.fract_intCast, Int.floor_intCast, if_pos (Or.inl (by norm_num))]

/-- `%d` is read back. -/
theorem scanNumber_intText (m : ℤ) : scanNumber (utf8 (intText m)) = some (m, []) := by
  have hdigits := digitsNat_decimal m.natAbs
  unfold intText signText
  split_ifs with h
  · have hread := scanNumber_digits (allDigits_decimal m.natAbs) Nat.toDigits_ne_nil true
    rw [hdigits] at hread
    have hsign : utf8 (['-'] ++ decimal m.natAbs) = (if true then 45 else 43) :: utf8 (decimal m.natAbs) := rfl
    rw [hsign, hread, if_pos rfl]
    exact congrArg (fun n => some (n, [])) (by omega)
  · have hblank : ∀ b ∈ ([] : List UInt8), isSpace b := by simp
    have hread := scanNumber_decimal m.natAbs hblank notDigit_nil
    rw [List.nil_append, List.append_nil] at hread
    rw [List.nil_append, hread]
    exact congrArg (fun n => some (n, [])) (by omega)

/-- The places of a fixed text are those of the number it was made from. -/
theorem takeDouble_fixedText {ds : List Char} (hds : AllDigits ds) (places : ℕ) (negative : Bool) :
    takeDouble (signBytes negative ++ utf8 (fixedText ds places)) = some (signed negative (pointValue ds places), []) := by
  have hpadded : AllDigits (List.replicate (places + 1 - ds.length) '0' ++ ds) := (allDigits_zeros _).append hds
  have hlen : places + 1 ≤ (List.replicate (places + 1 - ds.length) '0' ++ ds).length := by
    rw [List.length_append, List.length_replicate]
    omega
  have hzeros : digitsNat (List.replicate (places + 1 - ds.length) '0' ++ ds) = digitsNat ds := digitsNat_zeros_append _ _
  unfold fixedText
  dsimp only
  generalize List.replicate (places + 1 - ds.length) '0' ++ ds = padded at hpadded hlen hzeros
  have hip : padded.take (padded.length - places) ≠ [] := by
    intro hnil
    have h := congrArg List.length hnil
    rw [List.length_take, List.length_nil] at h
    omega
  have hfp : (padded.drop (padded.length - places)).length = places := by
    rw [List.length_drop]
    omega
  have hpoint : utf8 (padded.take (padded.length - places) ++ '.' :: padded.drop (padded.length - places)) =
      utf8 (padded.take (padded.length - places)) ++ 46 :: (utf8 (padded.drop (padded.length - places)) ++ []) := by
    rw [utf8_append, List.append_nil]
    rfl
  have htake : AllDigits (padded.take (padded.length - places)) := hpadded.subset (List.take_subset _ _)
  have hdrop : AllDigits (padded.drop (padded.length - places)) := hpadded.subset (List.drop_subset _ _)
  rw [hpoint, takeDouble_digits htake hip _ (notDigit_head rfl), scanFraction_point htake hdrop hip _ (by simp),
    scanExponent_nil, hfp, List.take_append_drop]
  unfold pointValue
  rw [hzeros]

theorem roundHalfEven_nonneg {x : ℚ} (hx : 0 ≤ x) : 0 ≤ roundHalfEven x := by
  have hfloor : 0 ≤ ⌊x⌋ := Int.floor_nonneg.mpr hx
  unfold roundHalfEven
  split_ifs <;> omega

/-- What `%f` writes is read as the number rounded to its places. -/
theorem takeDouble_formatFixed (places : ℕ) (x : ℚ) : takeDouble (utf8 (formatFixed places x)) =
    some (signed (decide (x < 0)) (roundHalfEven (|x| * 10 ^ places) / 10 ^ places), []) := by
  have hsign : utf8 (if x < 0 then ['-'] else []) = signBytes (decide (x < 0)) := by
    unfold signBytes
    by_cases h : x < 0
    · rw [if_pos h, if_pos (decide_eq_true h)]
      rfl
    · rw [if_neg h, if_neg (by rwa [decide_eq_true_iff])]
      rfl
  have hnonneg : 0 ≤ roundHalfEven (|x| * 10 ^ places) := roundHalfEven_nonneg (by positivity)
  have hcast : ((roundHalfEven (|x| * 10 ^ places)).natAbs : ℚ) = roundHalfEven (|x| * 10 ^ places) := by
    rw [Nat.cast_natAbs, abs_of_nonneg hnonneg]
  unfold formatFixed
  rw [utf8_append, hsign, takeDouble_fixedText (allDigits_decimal _)]
  unfold pointValue
  rw [digitsNat_decimal, hcast]

/-- A number is read back from `%f` when it has no more places than are written. -/
theorem takeDouble_formatFixed_eq_iff (places : ℕ) (x : ℚ) :
    takeDouble (utf8 (formatFixed places x)) = some (x, []) ↔ ∃ m : ℤ, x = m / 10 ^ places := by
  have hten : (10 : ℚ) ^ places ≠ 0 := by positivity
  rw [takeDouble_formatFixed, Option.some.injEq, Prod.mk.injEq, and_iff_left rfl]
  constructor
  · intro h
    rw [← h]
    unfold signed
    split_ifs
    · exact ⟨-roundHalfEven (|x| * 10 ^ places), by push_cast; ring⟩
    · exact ⟨_, rfl⟩
  · rintro ⟨m, rfl⟩
    have habs : |(m : ℚ) / 10 ^ places| * 10 ^ places = ((|m| : ℤ) : ℚ) := by
      rw [abs_div, abs_of_nonneg (by positivity : (0 : ℚ) ≤ 10 ^ places), div_mul_cancel₀ _ hten, Int.cast_abs]
    have hneg : ((m : ℚ) / 10 ^ places < 0) ↔ m < 0 := by
      rw [div_neg_iff]
      constructor
      · rintro (⟨-, h⟩ | ⟨h, -⟩)
        · exact absurd h (not_lt.mpr (by positivity))
        · exact_mod_cast h
      · intro h
        exact Or.inr ⟨by exact_mod_cast h, by positivity⟩
    rw [habs, roundHalfEven_intCast]
    unfold signed
    by_cases h : m < 0
    · rw [if_pos (decide_eq_true (hneg.mpr h)), abs_of_neg h]
      push_cast
      ring
    · rw [if_neg (by rw [decide_eq_true_iff]; exact fun hlt => h (hneg.mp hlt)), abs_of_nonneg (not_lt.mp h)]

end Fixed

/-! ## Characters of a number -/

section Characters

variable {ds : List Char}

def isNumberChar (c : Char) : Bool := c.isDigit ∨ c ∈ ['-', '+', '.', 'e']

def NumberChars (text : List Char) : Prop := ∀ c ∈ text, isNumberChar c

theorem NumberChars.append {s t : List Char} (hs : NumberChars s) (ht : NumberChars t) : NumberChars (s ++ t) := fun c hc =>
  (List.mem_append.mp hc).elim (hs c) (ht c)

theorem AllDigits.numberChars (hds : AllDigits ds) : NumberChars ds := fun c hc => decide_eq_true (Or.inl (hds c hc))

theorem numberChars_cons {c : Char} {text : List Char} (hc : isNumberChar c) (h : NumberChars text) :
    NumberChars (c :: text) := List.forall_mem_cons.mpr ⟨hc, h⟩

theorem numberChars_signText (m : ℤ) : NumberChars (signText m) := by
  unfold signText
  split_ifs
  · exact numberChars_cons rfl fun c hc => absurd hc List.not_mem_nil
  · exact fun c hc => absurd hc List.not_mem_nil

theorem numberChars_intText (m : ℤ) : NumberChars (intText m) :=
  (numberChars_signText m).append (allDigits_decimal m.natAbs).numberChars

theorem numberChars_pointText (hds : AllDigits ds) (places : ℕ) : NumberChars (pointText ds places) := by
  obtain ⟨ip, fp, htext, hip, hfp, -, -⟩ := pointText_spec hds places
  rw [htext]
  exact hip.numberChars.append (numberChars_cons rfl hfp.numberChars)

theorem numberChars_exponentText (hds : AllDigits ds) (hne : digitsNat ds ≠ 0) (e : ℤ) :
    NumberChars (exponentText ds e) := by
  obtain ⟨d, fp, ex, htext, hmantissa, hex, -, -, -⟩ := exponentText_spec hds hne e
  obtain ⟨hd, hfp⟩ := List.forall_mem_cons.mp hmantissa
  have hfraction : NumberChars (if fp = [] then [] else '.' :: fp) := by
    split_ifs
    · exact fun c hc => absurd hc List.not_mem_nil
    · exact numberChars_cons rfl (AllDigits.numberChars hfp)
  have hsign : isNumberChar (if e < 0 then '-' else '+') := by split_ifs <;> rfl
  rw [htext]
  apply NumberChars.append
  · exact numberChars_cons (decide_eq_true (Or.inl hd)) hfraction
  · exact numberChars_cons rfl (numberChars_cons hsign hex.numberChars)

theorem numberChars_floatText (m : ℤ) (places : ℕ) : NumberChars (floatText m places) := by
  unfold floatText
  apply (numberChars_signText m).append
  split_ifs with h
  · exact numberChars_exponentText (allDigits_decimal _) (by rw [digitsNat_decimal, Int.natAbs_ne_zero]; exact h.1) _
  · exact numberChars_pointText (allDigits_decimal _) places

theorem numberChars_fixedText (hds : AllDigits ds) (places : ℕ) : NumberChars (fixedText ds places) := by
  have hpadded : AllDigits (List.replicate (places + 1 - ds.length) '0' ++ ds) := (allDigits_zeros _).append hds
  unfold fixedText
  dsimp only
  apply NumberChars.append
  · exact (hpadded.subset (List.take_subset _ _)).numberChars
  · exact numberChars_cons rfl (hpadded.subset (List.drop_subset _ _)).numberChars

theorem numberChars_formatFixed (places : ℕ) (x : ℚ) : NumberChars (formatFixed places x) := by
  unfold formatFixed
  apply NumberChars.append
  · split_ifs
    · exact numberChars_cons rfl fun c hc => absurd hc List.not_mem_nil
    · exact fun c hc => absurd hc List.not_mem_nil
  · exact numberChars_fixedText (allDigits_decimal _) places

theorem NumberChars.zero_notMem {text : List Char} (h : NumberChars text) : 0 ∉ utf8 text :=
  zero_notMem_utf8 fun hmem => absurd (h _ hmem) (by decide)

theorem parseNumber_nil : parseNumber [] = none := rfl

/-- A text that is read as a number is not empty. -/
theorem ne_nil_of_parseNumber {text : List Char} {x : ℚ} (h : parseNumber text = some x) : text ≠ [] := by
  intro hnil
  rw [hnil, parseNumber_nil] at h
  cases h

end Characters

end NumberText
