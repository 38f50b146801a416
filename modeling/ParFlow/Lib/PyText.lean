import ParFlow.Lib.NumberText
import ParFlow.Lib.TextTable

/-! Texts as Python reads them: the lines of a text file, with every kind of newline, and the words of a line, with every
kind of white space between them. -/

namespace PyText

open NumberText TextScan TextTable

/-- `str.isspace` of a character. -/
def isSpace (c : Char) : Bool :=
  (9 ≤ c.toNat ∧ c.toNat ≤ 13) ∨ (28 ≤ c.toNat ∧ c.toNat ≤ 32) ∨ c.toNat = 133 ∨ c.toNat = 160 ∨ c.toNat = 5760 ∨
    (8192 ≤ c.toNat ∧ c.toNat ≤ 8202) ∨ c.toNat = 8232 ∨ c.toNat = 8233 ∨ c.toNat = 8239 ∨ c.toNat = 8287 ∨ c.toNat = 12288

/-- `text.split()` -/
def split (text : List Char) : List (List Char) := tokens isSpace text

/-- `text.strip()` -/
def strip (text : List Char) : List Char := (text.dropWhile isSpace).rdropWhile isSpace

/-- Digits, with single underscores between them. -/
def readDigits (digits : List Char) : Option ℕ :=
  let groups := digits.splitOn '_'
  if groups.all fun group => group ≠ [] ∧ group.all Char.isDigit then some (digitsNat groups.flatten) else none

/-- `int(text)`, for the ten digits of ASCII. -/
def readInt (text : List Char) : Option ℤ :=
  match strip text with
  | '-' :: digits => (readDigits digits).map fun n : ℕ => -(n : ℤ)
  | '+' :: digits => (readDigits digits).map Nat.cast
  | digits => (readDigits digits).map Nat.cast

/-- The newlines of a file that is read as text. -/
def universalNewlines : List Char → List Char
  | '\r' :: '\n' :: rest => '\n' :: universalNewlines rest
  | '\r' :: rest => '\n' :: universalNewlines rest
  | c :: rest => c :: universalNewlines rest
  | [] => []

/-- The lines of a file without their newlines; nothing behind the last newline is a line. -/
def fileLines (text : List Char) : List (List Char) :=
  let pieces := lines (universalNewlines text)
  if pieces.getLast? = some [] then pieces.dropLast else pieces

def isBreak (c : Char) : Bool := c = '\n' ∨ c = '\r'

/-- `str.islower` of a character: lower-case letters are not white space. -/
structure LowerCase where
  islower : Char → Bool
  solid : ∀ c, islower c → isSpace c = false
  bang : islower '!' = false

section Lines

variable {text s t : List Char}

theorem lines_cons_newline (rest : List Char) : lines ('\n' :: rest) = [] :: lines rest := lines_cons List.not_mem_nil rest

theorem lines_cons_char {c : Char} (hc : c ≠ '\n') (rest : List Char) :
    lines (c :: rest) = (lines rest).modifyHead (c :: ·) := by
  unfold lines
  rw [List.splitOn_eq_splitOnP, List.splitOn_eq_splitOnP, List.splitOnP_cons_eq_if_modifyHead, if_neg (by simpa using hc)]

theorem pieces_cons_break {c : Char} (hc : isBreak c) (rest : List Char) :
    (c :: rest).splitOnP isBreak = [] :: rest.splitOnP isBreak := by
  rw [List.splitOnP_cons_eq_if_modifyHead, if_pos hc]

theorem pieces_cons_char {c : Char} (hc : isBreak c = false) (rest : List Char) :
    (c :: rest).splitOnP isBreak = (rest.splitOnP isBreak).modifyHead (c :: ·) := by
  rw [List.splitOnP_cons_eq_if_modifyHead, if_neg (by rw [hc]; exact Bool.false_ne_true)]

/-- The pieces between newlines are those between the breaks of the text, up to empty ones behind the first. -/
theorem exists_pieces (text : List Char) : ∃ first rest rest', lines (universalNewlines text) = first :: rest ∧
    text.splitOnP isBreak = first :: rest' ∧ rest.filter (· ≠ []) = rest'.filter (· ≠ []) := by
  induction text using universalNewlines.induct with
  | case1 text ih =>
    obtain ⟨first, rest, rest', hlines, hpieces, hrest⟩ := ih
    refine ⟨[], first :: rest, [] :: first :: rest', ?_, ?_, ?_⟩
    · rw [universalNewlines, lines_cons_newline, hlines]
    · rw [pieces_cons_break rfl, pieces_cons_break rfl, hpieces]
    · rw [List.filter_cons, List.filter_cons_of_neg (by simp), List.filter_cons, hrest]
  | case2 text hnext ih =>
    obtain ⟨first, rest, rest', hlines, hpieces, hrest⟩ := ih
    refine ⟨[], first :: rest, first :: rest', ?_, ?_, ?_⟩
    · rw [universalNewlines, lines_cons_newline, hlines]
      exact hnext
    · rw [pieces_cons_break rfl, hpieces]
    · rw [List.filter_cons, List.filter_cons, hrest]
  | case3 c text hpair hreturn ih =>
    obtain ⟨first, rest, rest', hlines, hpieces, hrest⟩ := ih
    have hstep : universalNewlines (c :: text) = c :: universalNewlines text := by
      rw [universalNewlines]
      · exact hpair
      · exact hreturn
    by_cases hc : c = '\n'
    · subst hc
      refine ⟨[], first :: rest, first :: rest', ?_, ?_, ?_⟩
      · rw [hstep, lines_cons_newline, hlines]
      · rw [pieces_cons_break rfl, hpieces]
      · rw [List.filter_cons, List.filter_cons, hrest]
    · have hbreak : isBreak c = false := by
        simp only [isBreak, hc, false_or, decide_eq_false_iff_not]
        exact hreturn
      refine ⟨c :: first, rest, rest', ?_, ?_, hrest⟩
      · rw [hstep, lines_cons_char hc, hlines, List.modifyHead_cons]
      · rw [pieces_cons_char hbreak, hpieces, List.modifyHead_cons]
  | case4 => exact ⟨[], [], [], rfl, rfl, rfl⟩

theorem universalNewlines_of_notMem (h : '\r' ∉ text) : universalNewlines text = text := by
  induction text with
  | nil => rfl
  | cons c text ih =>
    rw [List.mem_cons, not_or] at h
    rw [universalNewlines, ih h.2]
    · exact fun rest heq => absurd heq.symm h.1
    · exact fun heq => absurd heq.symm h.1

theorem fileLines_flatMap {lines : List (List Char)} (h : ∀ line ∈ lines, ∀ c ∈ line, isBreak c = false) :
    fileLines (lines.flatMap fun line => line ++ ['\n']) = lines := by
  have hreturn : '\r' ∉ lines.flatMap fun line => line ++ ['\n'] := by
    intro hmem
    obtain ⟨line, hline, hmem⟩ := List.mem_flatMap.mp hmem
    rcases List.mem_append.mp hmem with hmem | hmem
    · exact absurd (h line hline _ hmem) (by decide)
    · exact absurd hmem (by decide)
  have hlines : TextTable.lines (lines.flatMap fun line => line ++ ['\n']) = lines.map id ++ [[]] :=
    lines_flatMap fun line hline hmem => absurd (h line hline _ hmem) (by decide)
  unfold fileLines
  dsimp only
  rw [universalNewlines_of_notMem hreturn, hlines, List.getLast?_concat, if_pos rfl, List.dropLast_concat, List.map_id]

theorem filter_fileLines (text : List Char) : (fileLines text).filter (· ≠ []) = tokens isBreak text := by
  obtain ⟨first, rest, rest', hlines, hpieces, hrest⟩ := exists_pieces text
  have hdrop : ∀ pieces : List (List Char), pieces.getLast? = some [] →
      pieces.dropLast.filter (· ≠ []) = pieces.filter (· ≠ []) := by
    intro pieces hlast
    obtain ⟨pre, rfl⟩ := List.getLast?_eq_some_iff.mp hlast
    simp
  have hpiecesEq : (lines (universalNewlines text)).filter (· ≠ []) = tokens isBreak text := by
    rw [tokens, hlines, hpieces, List.filter_cons, List.filter_cons, hrest]
  unfold fileLines
  dsimp only
  split_ifs with hlast
  · rw [hdrop _ hlast, hpiecesEq]
  · exact hpiecesEq

end Lines

section Words

variable {word rest line : List Char}

theorem isSpace_of_isBreak {c : Char} (h : isBreak c) : isSpace c := by
  rw [isBreak, decide_eq_true_iff] at h
  rcases h with rfl | rfl <;> decide

/-- A word goes on up to the next separator. -/
theorem tokens_word_append {sep : Char → Bool} (hword : ∀ c ∈ word, sep c = false) (hne : word ≠ []) (rest : List Char) :
    tokens sep (word ++ rest) =
      (word ++ rest.takeWhile fun c => !sep c) :: tokens sep (rest.dropWhile fun c => !sep c) := by
  have hstart : (word ++ rest).dropWhile sep = word ++ rest := by
    obtain ⟨c, cs, rfl⟩ := List.exists_cons_of_ne_nil hne
    refine List.dropWhile_cons_of_neg ?_
    rw [hword c List.mem_cons_self]
    exact Bool.false_ne_true
  have hsolid : ∀ c ∈ word, (!sep c) = true := by
    intro c hc
    rw [hword c hc]
    rfl
  have htail : tokens sep (rest.dropWhile fun c => !sep c).tail = tokens sep (rest.dropWhile fun c => !sep c) := by
    cases hrest : rest.dropWhile fun c => !sep c with
    | nil => rfl
    | cons c cs =>
      have hc := List.head_dropWhile_not (fun c => !sep c) (by rw [hrest]; exact List.cons_ne_nil c cs)
      have hsep : sep c := by simpa [hrest] using hc
      exact (tokens_sep_cons hsep cs).symm
  rw [tokens_eq_cons (by rw [hstart]; exact List.append_ne_nil_of_left_ne_nil hne rest), hstart,
    List.takeWhile_append_of_pos hsolid, List.dropWhile_append_of_pos hsolid, htail]

/-- A text up to its first word, and the words behind. -/
theorem exists_word_of_split {text : List Char} {words : List (List Char)} (h : split text = word :: words) :
    ∃ blanks after, text = blanks ++ word ++ after ∧ (∀ c ∈ blanks, isSpace c) ∧ (∀ c ∈ after.head?, isSpace c) ∧
      split after = words := by
  have hne : text.dropWhile isSpace ≠ [] := by
    intro hnil
    rw [split, tokens_eq_nil_iff.mpr hnil] at h
    cases h
  rw [split, tokens_eq_cons hne] at h
  obtain ⟨hword, hwords⟩ := List.cons_eq_cons.mp h
  have hafter : ∀ c ∈ ((text.dropWhile isSpace).dropWhile fun c => !isSpace c).head?, isSpace c := by
    intro c hc
    have hstop := List.head?_dropWhile_not (fun c => !isSpace c) (text.dropWhile isSpace)
    rw [Option.mem_def.mp hc] at hstop
    simpa using hstop
  refine ⟨text.takeWhile isSpace, (text.dropWhile isSpace).dropWhile fun c => !isSpace c, ?_, ?_, hafter, ?_⟩
  · rw [List.append_assoc, ← hword, List.takeWhile_append_dropWhile, List.takeWhile_append_dropWhile]
  · exact fun c hc => List.mem_takeWhile_imp hc
  · rw [← hwords]
    cases hrest : (text.dropWhile isSpace).dropWhile fun c => !isSpace c with
    | nil => rfl
    | cons c rest => exact tokens_sep_cons (hafter c (by rw [hrest]; rfl)) rest

/-- No piece has a separator in it. -/
theorem solid_of_mem_splitOnP {sep : Char → Bool} {text piece : List Char} (h : piece ∈ text.splitOnP sep) :
    ∀ c ∈ piece, sep c = false := by
  induction text generalizing piece with
  | nil =>
    rw [List.splitOnP_nil, List.mem_singleton] at h
    rw [h]
    exact fun c hc => absurd hc List.not_mem_nil
  | cons b text ih =>
    rw [List.splitOnP_cons_eq_if_modifyHead] at h
    split_ifs at h with hb
    · rcases List.mem_cons.mp h with rfl | h
      · exact fun c hc => absurd hc List.not_mem_nil
      · exact ih h
    · cases hpieces : text.splitOnP sep with
      | nil => exact absurd hpieces (List.splitOnP_ne_nil sep text)
      | cons first pieces =>
        rw [hpieces] at h ih
        rw [List.modifyHead_cons] at h
        rcases List.mem_cons.mp h with rfl | h
        · exact List.forall_mem_cons.mpr ⟨Bool.eq_false_iff.mpr hb, ih List.mem_cons_self⟩
        · exact ih (List.mem_cons_of_mem _ h)

theorem mem_split (h : word ∈ split line) : word ≠ [] ∧ ∀ c ∈ word, isSpace c = false := by
  unfold split tokens at h
  rw [List.mem_filter, decide_eq_true_iff] at h
  exact ⟨h.2, solid_of_mem_splitOnP h.1⟩

/-- A word that does not fill its column. -/
theorem split_padRight_append {text : List Char} {width : ℕ} (hne : text ≠ []) (hsolid : ∀ c ∈ text, isSpace c = false)
    (hlength : text.length < width) (rest : List Char) : split (padRight width text ++ rest) = text :: split rest := by
  obtain ⟨n, hn⟩ : ∃ n, width - text.length = n + 1 := ⟨width - text.length - 1, by omega⟩
  have hblanks : ∀ m, split (List.replicate m ' ' ++ rest) = split rest := by
    intro m
    induction m with
    | zero => rfl
    | succ m ih => exact (tokens_sep_cons rfl _).trans ih
  rw [padRight, hn, List.append_assoc, List.replicate_succ, List.cons_append, split,
    tokens_append_sep rfl, tokens_singleton hne hsolid]
  exact congrArg _ (hblanks n)

/-- White space around a text makes no difference to its words. -/
theorem split_spaces {pre post : List Char} (hpre : ∀ c ∈ pre, isSpace c) (hpost : ∀ c ∈ post, isSpace c) (text : List Char) :
    split (pre ++ text ++ post) = split text := by
  have hleft : ∀ t, split (pre ++ t) = split t := by
    intro t
    rw [split, ← tokens_dropWhile, List.dropWhile_append_of_pos hpre, tokens_dropWhile]
    rfl
  rw [List.append_assoc, hleft]
  cases post with
  | nil => rw [List.append_nil]
  | cons c post =>
    have hnil : split post = [] := by
      rw [split, tokens_eq_nil_iff, List.dropWhile_eq_nil_iff]
      exact (List.forall_mem_cons.mp hpost).2
    rw [split, tokens_append_sep (hpost c List.mem_cons_self)]
    exact (congrArg (split text ++ ·) hnil).trans (List.append_nil _)

theorem exists_strip (text : List Char) : ∃ pre post, text = pre ++ strip text ++ post ∧ (∀ c ∈ pre, isSpace c) ∧
    ∀ c ∈ post, isSpace c := by
  have hright : ∀ t : List Char, t = t.rdropWhile isSpace ++ t.rtakeWhile isSpace := by
    intro t
    rw [List.rdropWhile, List.rtakeWhile, ← List.reverse_append, List.takeWhile_append_dropWhile, List.reverse_reverse]
  refine ⟨text.takeWhile isSpace, (text.dropWhile isSpace).rtakeWhile isSpace, ?_, fun c hc => List.mem_takeWhile_imp hc,
    fun c hc => List.mem_rtakeWhile_imp hc⟩
  rw [List.append_assoc, strip, ← hright, List.takeWhile_append_dropWhile]

/-- A text that starts with no white space keeps its first character. -/
theorem head?_strip {text : List Char} {c : Char} (h : text.head? = some c) (hc : isSpace c = false) :
    (strip text).head? = some c := by
  obtain ⟨pre, post, htext, hpre, hpost⟩ := exists_strip text
  have hfirst : ∀ s t : List Char, (∀ a ∈ s, isSpace a) → (s ++ t).head? = some c → s = [] := by
    intro s t hs hst
    cases s with
    | nil => rfl
    | cons a s =>
      have ha := hs a List.mem_cons_self
      rw [Option.some.inj hst, hc] at ha
      cases ha
  rw [htext, List.append_assoc] at h
  rw [hfirst pre _ hpre h, List.nil_append] at h
  cases hstrip : strip text with
  | nil =>
    rw [hstrip, List.nil_append] at h
    rw [hfirst post [] hpost (by rwa [List.append_nil])] at h
    cases h
  | cons a rest => rwa [hstrip] at h

theorem exists_head_split {text : List Char} {c : Char} (h : text.head? = some c) (hc : isSpace c = false) :
    ∃ word words, split text = word :: words ∧ word.head? = some c := by
  cases hsplit : split text with
  | nil =>
    rw [split, tokens_eq_nil_iff, List.dropWhile_eq_nil_iff] at hsplit
    have hspace := hsplit c (List.mem_of_mem_head? h)
    rw [hc] at hspace
    cases hspace
  | cons word words =>
    obtain ⟨blanks, after, rfl, hblanks, -, -⟩ := exists_word_of_split hsplit
    obtain ⟨hne, -⟩ := mem_split (by rw [hsplit]; exact List.mem_cons_self : word ∈ split (blanks ++ word ++ after))
    obtain ⟨a, rest, rfl⟩ := List.exists_cons_of_ne_nil hne
    refine ⟨a :: rest, words, rfl, ?_⟩
    cases blanks with
    | nil => exact h
    | cons b blanks =>
      have hspace := hblanks b List.mem_cons_self
      rw [Option.some.inj h, hc] at hspace
      cases hspace

theorem split_strip (text : List Char) : split (strip text) = split text := by
  obtain ⟨pre, post, htext, hpre, hpost⟩ := exists_strip text
  rw [htext, split_spaces hpre hpost, ← htext]

theorem strip_of_split (h : split line = [word]) : strip line = word := by
  obtain ⟨hne, hsolid⟩ := mem_split (by rw [h]; exact List.mem_cons_self : word ∈ split line)
  obtain ⟨blanks, after, rfl, hblanks, -, hrest⟩ := exists_word_of_split h
  rw [split, tokens_eq_nil_iff, List.dropWhile_eq_nil_iff] at hrest
  have hstop : ∀ t : List Char, t ≠ [] → (∀ c ∈ t, isSpace c = false) → ∀ u, (t ++ u).dropWhile isSpace = t ++ u := by
    intro t ht hsolid u
    obtain ⟨c, cs, rfl⟩ := List.exists_cons_of_ne_nil ht
    exact List.dropWhile_cons_of_neg (by rw [hsolid c List.mem_cons_self]; exact Bool.false_ne_true)
  have hlast := hstop word.reverse (List.reverse_ne_nil_iff.mpr hne) (fun c hc => hsolid c (List.mem_reverse.mp hc)) []
  rw [List.append_nil] at hlast
  rw [strip, List.append_assoc, List.dropWhile_append_of_pos hblanks, hstop word hne hsolid, List.rdropWhile,
    List.reverse_append, List.dropWhile_append_of_pos (fun c hc => hrest c (List.mem_reverse.mp hc)), hlast,
    List.reverse_reverse]

end Words

/-! ## Integers -/

section Integers

variable {text digits : List Char}

/-- What holds of the pieces holds of all that is no separator. -/
theorem sep_or_of_splitOnP {sep : Char → Bool} {P : Char → Prop} (h : ∀ piece ∈ text.splitOnP sep, ∀ c ∈ piece, P c) :
    ∀ c ∈ text, sep c ∨ P c := by
  induction text with
  | nil => exact fun c hc => absurd hc List.not_mem_nil
  | cons b text ih =>
    obtain ⟨first, pieces, hpieces⟩ := List.exists_cons_of_ne_nil (List.splitOnP_ne_nil sep text)
    rw [List.splitOnP_cons_eq_if_modifyHead] at h
    split_ifs at h with hb
    · exact List.forall_mem_cons.mpr ⟨Or.inl hb, ih (List.forall_mem_cons.mp h).2⟩
    · rw [hpieces, List.modifyHead_cons, List.forall_mem_cons, List.forall_mem_cons] at h
      refine List.forall_mem_cons.mpr ⟨Or.inr h.1.1, ih ?_⟩
      rw [hpieces]
      exact List.forall_mem_cons.mpr ⟨h.1.2, h.2⟩

theorem not_isSpace_of_isDigit {c : Char} (h : c.isDigit) : isSpace c = false := by
  have hrange : 48 ≤ c.toNat ∧ c.toNat ≤ 57 := by
    simpa [Char.isDigit, UInt32.le_iff_toNat_le] using h
  rw [isSpace, decide_eq_false_iff_not]
  omega

theorem solid_of_readDigits {n : ℕ} (h : readDigits digits = some n) : digits ≠ [] ∧ ∀ c ∈ digits, isSpace c = false := by
  unfold readDigits at h
  dsimp only at h
  split at h
  case isFalse => cases h
  rename_i hgroups
  simp only [List.all_eq_true, decide_eq_true_iff] at hgroups
  constructor
  · rintro rfl
    exact (hgroups [] (by decide)).1 rfl
  · intro c hc
    have hpieces : ∀ piece ∈ digits.splitOnP (· == '_'), ∀ c ∈ piece, c.isDigit := fun piece hpiece =>
      (hgroups piece hpiece).2
    rcases sep_or_of_splitOnP hpieces c hc with hsep | hdigit
    · rw [eq_of_beq hsep]
      decide
    · exact not_isSpace_of_isDigit hdigit

/-- Only a text of one word is an integer. -/
theorem split_of_readInt {n : ℤ} (h : readInt text = some n) : split text = [strip text] := by
  have hword : strip text ≠ [] ∧ ∀ c ∈ strip text, isSpace c = false := by
    unfold readInt at h
    split at h
    · rename_i digits heq
      obtain ⟨m, hm, -⟩ := Option.map_eq_some_iff.mp h
      rw [heq]
      exact ⟨List.cons_ne_nil _ _, List.forall_mem_cons.mpr ⟨rfl, (solid_of_readDigits hm).2⟩⟩
    · rename_i digits heq
      obtain ⟨m, hm, -⟩ := Option.map_eq_some_iff.mp h
      rw [heq]
      exact ⟨List.cons_ne_nil _ _, List.forall_mem_cons.mpr ⟨rfl, (solid_of_readDigits hm).2⟩⟩
    · obtain ⟨m, hm, -⟩ := Option.map_eq_some_iff.mp h
      exact solid_of_readDigits hm
  rw [← split_strip, split, tokens_singleton hword.1 hword.2]

theorem readDigits_of_digits (hne : digits ≠ []) (h : AllDigits digits) : readDigits digits = some (digitsNat digits) := by
  have hgroups : digits.splitOn '_' = [digits] := by
    rw [List.splitOn_eq_splitOnP, List.splitOnP_eq_singleton]
    intro c hc
    rw [beq_eq_false_iff_ne]
    rintro rfl
    exact absurd (h _ hc) (by decide)
  have hall : digits.all Char.isDigit := List.all_eq_true.mpr h
  unfold readDigits
  dsimp only
  rw [hgroups, List.all_cons, List.all_nil, Bool.and_true, if_pos (decide_eq_true ⟨hne, hall⟩), List.flatten_singleton]

theorem readInt_intText {n : ℤ} (h : split text = [intText n]) : readInt text = some n := by
  have hdigits : readDigits (decimal n.natAbs) = some n.natAbs := by
    have hne : decimal n.natAbs ≠ [] := Nat.toDigits_ne_nil
    rw [readDigits_of_digits hne (allDigits_decimal n.natAbs), digitsNat_decimal]
  rw [readInt, strip_of_split h, intText, signText]
  by_cases hn : n < 0
  · rw [if_pos hn, List.singleton_append]
    change (readDigits (decimal n.natAbs)).map _ = _
    rw [hdigits, Option.map_some, Int.ofNat_natAbs_of_nonpos hn.le, neg_neg]
  · have hhead : ∀ c ∈ decimal n.natAbs, c ≠ '-' ∧ c ≠ '+' := by
      intro c hc
      have hdigit := allDigits_decimal n.natAbs c hc
      exact ⟨fun heq => absurd (heq ▸ hdigit) (by decide), fun heq => absurd (heq ▸ hdigit) (by decide)⟩
    rw [if_neg hn, List.nil_append]
    split
    · rename_i heq
      exact absurd rfl (hhead '-' (by rw [heq]; exact List.mem_cons_self)).1
    · rename_i heq
      exact absurd rfl (hhead '+' (by rw [heq]; exact List.mem_cons_self)).2
    · rw [hdigits, Option.map_some, Int.natAbs_of_nonneg (not_lt.mp hn)]

end Integers

end PyText
