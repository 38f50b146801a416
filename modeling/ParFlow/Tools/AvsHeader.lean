import ParFlow.Tools.ReadDefs

/-! The parser of the header runs on behind a line that is a single word, and it stores one pair too many when the last line
has no newline and none of the others is blank. On all other headers it returns zero or the pairs of the lines. -/

namespace ParFlow.AvsField

variable {line text token value rest : List Char} {header : List Char} {room newlines : ℕ}
  {lines : List (List Char)} {pairs : List (List Char × List Char)}

/-! ## Blanks -/

theorem strip_eq_nil_iff : strip text = [] ↔ text.rdropWhile isSpace = [] := by
  rw [strip, List.dropWhile_eq_nil_iff]
  constructor
  · intro h
    by_contra hne
    exact List.rdropWhile_last_not isSpace text hne (h _ (List.getLast_mem hne))
  · intro h c hc
    rw [h] at hc
    exact absurd hc List.not_mem_nil

/-- A part at the end of a text without blanks at its end has none either. -/
theorem rdropWhile_of_suffix (hsuffix : rest <:+ text) (htext : text.rdropWhile isSpace = text) :
    rest.rdropWhile isSpace = rest := by
  rw [List.rdropWhile_eq_self_iff] at htext ⊢
  intro hrest
  rw [hsuffix.getLast hrest]
  exact htext _

theorem dropWhile_solid (h : ∀ c ∈ text, isSpace c = false) : text.dropWhile isSpace = text := by
  cases text with
  | nil => rfl
  | cons c rest => exact List.dropWhile_cons_of_neg (Bool.eq_false_iff.mp (h c List.mem_cons_self))

/-- A word with blanks behind it. -/
theorem strip_append_blanks {blanks : List Char} (hword : ∀ c ∈ token, isSpace c = false) (hblanks : ∀ c ∈ blanks, isSpace c) :
    strip (token ++ blanks) = token := by
  have htrim : (token ++ blanks).rdropWhile isSpace = token := by
    rw [List.rdropWhile, List.reverse_append, List.dropWhile_append_of_pos fun c hc => hblanks c (List.mem_reverse.mp hc),
      dropWhile_solid fun c hc => hword c (List.mem_reverse.mp hc), List.reverse_reverse]
  rw [strip, htrim, dropWhile_solid hword]

theorem content_rdropWhile : (content line).rdropWhile isSpace = content line := by
  unfold content strip
  exact rdropWhile_of_suffix (List.dropWhile_suffix _) (List.rdropWhile_idempotent _ _)

theorem length_content_le : (content line).length ≤ line.length := by
  unfold content strip killComments
  calc _ ≤ ((line.takeWhile (· ≠ '#')).rdropWhile isSpace).length := (List.dropWhile_suffix _).length_le
    _ ≤ (line.takeWhile (· ≠ '#')).length := (List.rdropWhile_prefix _ _).length_le
    _ ≤ line.length := (List.takeWhile_prefix _).length_le

theorem not_isTokenChar_iff {c : Char} : isTokenChar c = false ↔ isSpace c ∨ c = '=' := by
  simp only [isTokenChar, Bool.and_eq_false_iff, Bool.not_eq_false', decide_eq_false_iff_not, not_not]

theorem not_isSpace_equals : isSpace '=' = false := by decide

/-! ## One line -/

theorem scanToken_eq (hroom : token.length + text.length ≤ room) : scanToken room token text =
    if text.dropWhile isTokenChar = [] then .error .pastLine
    else .ok (token ++ text.takeWhile isTokenChar, text.dropWhile isTokenChar) := by
  induction text generalizing token with
  | nil => rfl
  | cons c rest ih =>
    rw [List.length_cons] at hroom
    rw [scanToken]
    cases hc : isTokenChar c with
    | false =>
      rw [if_pos (not_isTokenChar_iff.mp hc), List.dropWhile_cons_of_neg (Bool.eq_false_iff.mp hc),
        if_neg (List.cons_ne_nil c rest), List.takeWhile_cons_of_neg (Bool.eq_false_iff.mp hc), List.append_nil]
    | true =>
      have hstay : ¬ (isSpace c ∨ c = '=') := fun h => Bool.false_ne_true ((not_isTokenChar_iff.mpr h).symm.trans hc)
      rw [if_neg hstay, if_pos (by omega), ih (by rw [List.length_append, List.length_singleton]; omega),
        List.dropWhile_cons_of_pos hc, List.takeWhile_cons_of_pos hc, List.append_assoc, List.singleton_append]

theorem terminate_eq {fault : Fault} (h : text.length < room) : terminate room fault text = .ok text := if_pos h

/-- A line with a word and an equals sign after it. -/
structure Entry (line token value : List Char) : Prop where
  split : ∃ blanks, content line = token ++ blanks ++ '=' :: value ∧ ∀ c ∈ blanks, isSpace c
  word : ∀ c ∈ token, isTokenChar c

theorem exists_entry (hbare : ¬ Bare line) (hreject : ¬ Rejected line) (hne : content line ≠ []) :
    ∃ token value, Entry line token value := by
  have hrest : (content line).dropWhile isTokenChar ≠ [] := fun h => hbare ⟨hne, h⟩
  have hequals : (((content line).dropWhile isTokenChar).dropWhile isSpace).head? = some '=' := by
    by_contra h
    exact hreject ⟨hrest, h⟩
  obtain ⟨value, hvalue⟩ : ∃ value, ((content line).dropWhile isTokenChar).dropWhile isSpace = '=' :: value :=
    List.head?_eq_some_iff.mp hequals
  refine ⟨(content line).takeWhile isTokenChar, value,
    ⟨⟨((content line).dropWhile isTokenChar).takeWhile isSpace, ?_, fun c hc => ?_⟩, fun c hc => ?_⟩⟩
  · rw [← hvalue, List.append_assoc, List.takeWhile_append_dropWhile, List.takeWhile_append_dropWhile]
  · exact List.mem_takeWhile_imp hc
  · exact List.mem_takeWhile_imp hc

theorem Entry.content_ne_nil (h : Entry line token value) : content line ≠ [] := by
  obtain ⟨blanks, hsplit, -⟩ := h.split
  rw [hsplit]
  exact List.append_ne_nil_of_right_ne_nil _ (List.cons_ne_nil _ _)

theorem Entry.value_rdropWhile (h : Entry line token value) : value.rdropWhile isSpace = value := by
  obtain ⟨blanks, hsplit, -⟩ := h.split
  refine rdropWhile_of_suffix ?_ (@content_rdropWhile line)
  rw [hsplit]
  exact (List.suffix_cons _ _).trans (List.suffix_append _ _)

/-- The end of the word, and the rest without the blanks before the equals sign. -/
theorem Entry.scan (h : Entry line token value) : (content line).takeWhile isTokenChar = token ∧
    (content line).dropWhile isTokenChar ≠ [] ∧ ((content line).dropWhile isTokenChar).dropWhile isSpace = '=' :: value := by
  obtain ⟨blanks, hsplit, hblanks⟩ := h.split
  have hstop : ∀ c ∈ (blanks ++ '=' :: value).head?, isTokenChar c = false := by
    intro c hc
    rw [not_isTokenChar_iff]
    cases blanks with
    | nil => exact Or.inr (Option.some_injective _ hc).symm
    | cons b blanks => exact Or.inl (Option.some_injective _ hc ▸ hblanks b List.mem_cons_self)
  have hdrop : (blanks ++ '=' :: value).dropWhile isTokenChar = blanks ++ '=' :: value := by
    cases hrest : blanks ++ '=' :: value with
    | nil => rfl
    | cons c rest =>
      exact List.dropWhile_cons_of_neg (Bool.eq_false_iff.mp (hstop c (hrest ▸ rfl)))
  have htake : (blanks ++ '=' :: value).takeWhile isTokenChar = [] := by
    cases hrest : blanks ++ '=' :: value with
    | nil => rfl
    | cons c rest =>
      exact List.takeWhile_cons_of_neg (Bool.eq_false_iff.mp (hstop c (hrest ▸ rfl)))
  rw [hsplit, List.append_assoc, List.takeWhile_append_of_pos h.word, List.dropWhile_append_of_pos h.word, hdrop, htake,
    List.append_nil, List.dropWhile_append_of_pos hblanks]
  refine ⟨rfl, List.append_ne_nil_of_right_ne_nil _ (List.cons_ne_nil _ _), ?_⟩
  exact List.dropWhile_cons_of_neg (by rw [not_isSpace_equals]; exact Bool.false_ne_true)

theorem Entry.linePair (h : Entry line token value) : linePair line = some (token, value.dropWhile isSpace) := by
  obtain ⟨blanks, hsplit, hblanks⟩ := h.split
  have hbefore : ∀ c ∈ token ++ blanks, decide (c ≠ '=') := by
    intro c hc
    rw [decide_eq_true_iff]
    rintro rfl
    rcases List.mem_append.mp hc with hc | hc
    · exact absurd (h.word _ hc) (by decide)
    · exact absurd (hblanks _ hc) (by decide)
  have hsolid : ∀ c ∈ token, isSpace c = false := by
    intro c hc
    have hchar := h.word c hc
    rw [isTokenChar, Bool.and_eq_true, Bool.not_eq_true'] at hchar
    exact hchar.1
  have hvalue : strip value = value.dropWhile isSpace := by rw [strip, h.value_rdropWhile]
  unfold AvsField.linePair
  rw [if_neg h.content_ne_nil, hsplit, List.takeWhile_append_of_pos hbefore, List.dropWhile_append_of_pos hbefore]
  simp [strip_append_blanks hsolid hblanks, hvalue]

/-- What the parser makes of a line. -/
theorem parseLine_blank (h : content line = []) : parseLine line = .ok .blank := by
  unfold parseLine
  rw [content, strip_eq_nil_iff] at h
  dsimp only
  rw [if_pos h]

/-- The parser up to the end of the token. -/
theorem parseLine_eq (h : content line ≠ []) : parseLine line =
    if (content line).dropWhile isTokenChar = [] then .error .pastLine
    else match ((content line).dropWhile isTokenChar).dropWhile isSpace with
      | '=' :: rest => do
        let value ← terminate (line.length + 1) .pastValue (rest.dropWhile isSpace)
        .ok (.pair ((content line).takeWhile isTokenChar) value)
      | _ => .ok .reject := by
  have hlength := @length_content_le line
  have htoken : ((content line).takeWhile isTokenChar).length < line.length + 1 :=
    Nat.lt_succ_of_le ((List.takeWhile_prefix _).length_le.trans hlength)
  have htext : (killComments line).rdropWhile isSpace ≠ [] := fun hnil => h (strip_eq_nil_iff.mpr hnil)
  have hcontent : ((killComments line).rdropWhile isSpace).dropWhile isSpace = content line := rfl
  unfold parseLine
  dsimp only
  rw [if_neg htext, hcontent, scanToken_eq (by rw [List.length_nil]; omega)]
  split_ifs with hend
  · rfl
  · change (terminate _ _ _ >>= fun token => _) = _
    rw [List.nil_append, terminate_eq htoken]
    rfl

theorem parseLine_bare (h : Bare line) : parseLine line = .error .pastLine := by
  rw [parseLine_eq h.1, if_pos h.2]

theorem parseLine_rejected (h : Rejected line) : parseLine line = .ok .reject := by
  have hne : content line ≠ [] := by
    intro hnil
    exact h.1 (by rw [hnil]; rfl)
  rw [parseLine_eq hne, if_neg h.1]
  split
  · rename_i rest hrest
    exact absurd (congrArg List.head? hrest) h.2
  · rfl

theorem parseLine_entry (h : Entry line token value) : parseLine line = .ok (.pair token (value.dropWhile isSpace)) := by
  obtain ⟨htoken, hne, hrest⟩ := h.scan
  have hlength : (value.dropWhile isSpace).length < line.length + 1 := by
    obtain ⟨blanks, hsplit, -⟩ := h.split
    have hsuffix : value.dropWhile isSpace <:+ content line := by
      rw [hsplit]
      exact (List.dropWhile_suffix _).trans ((List.suffix_cons _ _).trans (List.suffix_append _ _))
    exact Nat.lt_succ_of_le (hsuffix.length_le.trans length_content_le)
  rw [parseLine_eq h.content_ne_nil, if_neg hne, hrest, htoken]
  change (terminate _ _ _ >>= fun value => _) = _
  rw [terminate_eq hlength]
  rfl

/-! ## All lines -/

/-- No line before a rejected one makes the parser leave its memory. -/
def Fits (newlines : ℕ) (lines : List (List Char)) (pairs : List (List Char × List Char)) : Prop :=
  (∀ line ∈ lines.takeWhile (fun line => ¬ Rejected line), ¬ Bare line) ∧
    pairs.length + (lines.takeWhile fun line => ¬ Rejected line).countP (fun line => content line ≠ []) ≤ newlines

theorem takeWhile_cons_accepted (h : ¬ Rejected line) : (line :: lines).takeWhile (fun line => ¬ Rejected line) =
    line :: lines.takeWhile fun line => ¬ Rejected line := by
  rw [List.takeWhile_cons, if_pos (decide_eq_true h)]

theorem not_rejected_of_blank (h : content line = []) : ¬ Rejected line := by
  intro hreject
  exact hreject.1 (by rw [h]; rfl)

theorem fits_nil (hpairs : pairs.length ≤ newlines) : Fits newlines [] pairs :=
  ⟨fun _ h => absurd h List.not_mem_nil, hpairs⟩

theorem fits_blank (h : content line = []) : Fits newlines (line :: lines) pairs ↔ Fits newlines lines pairs := by
  rw [Fits, takeWhile_cons_accepted (not_rejected_of_blank h), List.forall_mem_cons,
    and_iff_right fun hbare : Bare line => hbare.1 h, List.countP_cons_of_neg (by simpa using h)]
  rfl

theorem not_fits_bare (h : Bare line) : ¬ Fits newlines (line :: lines) pairs := by
  intro hfits
  rw [Fits, takeWhile_cons_accepted fun hreject => hreject.1 h.2] at hfits
  exact hfits.1 line List.mem_cons_self h

theorem fits_rejected (h : Rejected line) (hpairs : pairs.length ≤ newlines) : Fits newlines (line :: lines) pairs := by
  rw [Fits, List.takeWhile_cons, if_neg (by simpa using h)]
  exact fits_nil hpairs

theorem fits_entry (hbare : ¬ Bare line) (hreject : ¬ Rejected line) (hne : content line ≠ [])
    (pair : List Char × List Char) :
    Fits newlines (line :: lines) pairs ↔ Fits newlines lines (pairs ++ [pair]) := by
  rw [Fits, takeWhile_cons_accepted hreject, List.forall_mem_cons, and_iff_right hbare,
    List.countP_cons_of_pos (by simpa using hne), Fits, List.length_append, List.length_singleton, add_assoc,
    add_comm 1]

theorem length_lt_of_fits (h : Fits newlines lines (pairs ++ [(token, value)])) : pairs.length < newlines := by
  have hcount := h.2
  rw [List.length_append, List.length_singleton] at hcount
  omega

/-- The parser stays in its memory or not, and in its memory it returns what the lines say. -/
theorem parseLines_spec (hpairs : pairs.length ≤ newlines) :
    (Fits newlines lines pairs → parseLines newlines lines pairs =
      .ok (if ∀ line ∈ lines, ¬ Rejected line then some (pairs ++ lines.filterMap linePair) else none)) ∧
    (¬ Fits newlines lines pairs → ∃ fault, parseLines newlines lines pairs = .error fault) := by
  induction lines generalizing pairs with
  | nil => exact ⟨fun _ => by simp [parseLines], fun hnot => absurd (fits_nil hpairs) hnot⟩
  | cons line lines ih =>
    have hall : ¬ Rejected line → ((∀ l ∈ line :: lines, ¬ Rejected l) ↔ ∀ l ∈ lines, ¬ Rejected l) := by
      intro h
      rw [List.forall_mem_cons, and_iff_right h]
    by_cases hblank : content line = []
    · have hstep : parseLines newlines (line :: lines) pairs = parseLines newlines lines pairs := by
        rw [parseLines, parseLine_blank hblank]
        rfl
      have hnone : linePair line = none := if_pos hblank
      rw [hstep, fits_blank hblank, List.filterMap_cons_none hnone]
      simp only [hall (not_rejected_of_blank hblank)]
      exact ih hpairs
    by_cases hbare : Bare line
    · refine ⟨fun hfits => absurd hfits (not_fits_bare hbare), fun _ => ⟨.pastLine, ?_⟩⟩
      rw [parseLines, parseLine_bare hbare]
      rfl
    by_cases hreject : Rejected line
    · refine ⟨fun _ => ?_, fun hnot => absurd (fits_rejected hreject hpairs) hnot⟩
      rw [parseLines, parseLine_rejected hreject, if_neg fun h => h line List.mem_cons_self hreject]
      rfl
    obtain ⟨token, value, hentry⟩ := exists_entry hbare hreject hblank
    have hstep : parseLines newlines (line :: lines) pairs = if pairs.length < newlines then
        parseLines newlines lines (pairs ++ [(token, value.dropWhile isSpace)]) else .error .pastPairs := by
      rw [parseLines, parseLine_entry hentry]
      rfl
    rw [hstep, fits_entry hbare hreject hblank (token, value.dropWhile isSpace), List.filterMap_cons_some hentry.linePair]
    simp only [hall hreject]
    by_cases hroom : pairs.length < newlines
    · have hgrown : (pairs ++ [(token, value.dropWhile isSpace)]).length ≤ newlines := by
        rw [List.length_append, List.length_singleton]
        exact hroom
      rw [if_pos hroom, List.append_cons pairs _ (lines.filterMap linePair)]
      exact ih hgrown
    · rw [if_neg hroom]
      exact ⟨fun hfits => absurd (length_lt_of_fits hfits) hroom, fun _ => ⟨.pastPairs, rfl⟩⟩

/-! ## The header -/

theorem length_splitOn_newline (header : List Char) : (header.splitOn '\n').length = header.count '\n' + 1 := by
  rw [List.splitOn_eq_splitOnP]
  induction header with
  | nil => rfl
  | cons c rest ih =>
    rw [List.splitOnP_cons_eq_if_modifyHead, List.count_cons]
    split_ifs with hc
    · rw [List.length_cons, ih]
    · rw [List.length_modifyHead, ih, add_zero]

theorem filterMap_strtokLines (header : List Char) : (strtokLines header).filterMap linePair = headerPairs header := by
  unfold strtokLines headerPairs
  rw [List.filterMap_filter]
  apply List.filterMap_congr
  intro line _
  split_ifs with hne
  · rfl
  · have hnil : line = [] := by simpa using hne
    rw [hnil]
    rfl

theorem length_strtokLines_le (header : List Char) : (strtokLines header).length ≤ header.count '\n' + 1 :=
  (List.length_filter_le _ _).trans_eq (length_splitOn_newline header)

/-- When a line is rejected, there is a newline for each line before it. -/
theorem fits_iff (header : List Char) : Fits (header.count '\n') (strtokLines header) [] ↔ WellFormed header := by
  unfold Fits WellFormed acceptedLines
  rw [List.length_nil, zero_add]
  apply and_congr_right
  intro _
  constructor
  · intro hcount hall
    rwa [List.takeWhile_eq_self_iff.mpr fun line hline => decide_eq_true (hall line hline)] at hcount
  · intro hcount
    by_cases hall : ∀ line ∈ strtokLines header, ¬ Rejected line
    · rw [List.takeWhile_eq_self_iff.mpr fun line hline => decide_eq_true (hall line hline)]
      exact hcount hall
    · have hshort : ((strtokLines header).takeWhile fun line => ¬ Rejected line).length < (strtokLines header).length := by
        apply lt_of_le_of_ne (List.takeWhile_prefix _).length_le
        intro heq
        have hself := (List.takeWhile_prefix _).eq_of_length heq
        exact hall fun line hline => of_decide_eq_true (List.takeWhile_eq_self_iff.mp hself line hline)
      have hlines := length_strtokLines_le header
      exact List.countP_le_length.trans (by omega)

/-- The headers that are parsed safely, and the pairs of each. -/
theorem parseFldHeader_iff (header : List Char) : ParsesSafely header ↔ WellFormed header := by
  obtain ⟨hok, herror⟩ := @parseLines_spec (header.count '\n') (strtokLines header) [] (Nat.zero_le _)
  rw [filterMap_strtokLines, List.nil_append] at hok
  rw [← fits_iff, ParsesSafely, parseFldHeader]
  constructor
  · intro hsafe
    by_contra hnot
    obtain ⟨fault, hfault⟩ := herror hnot
    rw [hfault] at hsafe
    exact hsafe.elim (fun h => absurd h (by simp)) fun h => absurd h (by simp)
  · intro hfits
    rw [hok hfits]
    split_ifs
    · exact Or.inr rfl
    · exact Or.inl rfl

/-- A line without an equals sign is left at its end. -/
theorem singleWord_not_parsesSafely : ¬ ParsesSafely ['n', 'd', 'i', 'm', '\n'] := by decide

end ParFlow.AvsField
