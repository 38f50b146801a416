import Mathlib

/-! Texts as lists of tokens between separators, and tables as texts: lines that end with a newline, and words between
blanks, each padded to the width of its column. -/

namespace TextTable

/-! ## Lines and words -/

def isBlank (c : Char) : Bool := c = ' ' ∨ c = '\t'

/-- `text.split('\n')` -/
def lines (text : List Char) : List (List Char) := text.splitOn '\n'

/-- What stands between the separators, any number of which may come together. -/
def tokens (sep : Char → Bool) (text : List Char) : List (List Char) := (text.splitOnP sep).filter (· ≠ [])

/-- The words of a line, with any number of blanks around them. -/
def words (line : List Char) : List (List Char) := tokens isBlank line

/-- `f'{text:<width}'` -/
def padRight (width : ℕ) (text : List Char) : List Char := text ++ List.replicate (width - text.length) ' '

/-- `' '.join(texts)` -/
def joinBlank (texts : List (List Char)) : List Char := [' '].intercalate texts

/-- Neither blanks nor newlines, and not empty. -/
structure IsWord (text : List Char) : Prop where
  ne_nil : text ≠ []
  solid : ∀ c ∈ text, isBlank c = false ∧ c ≠ '\n'

section Lines

variable {line rest : List Char}

def NoNewline (line : List Char) : Prop := '\n' ∉ line

theorem lines_cons (h : NoNewline line) (rest : List Char) : lines (line ++ '\n' :: rest) = line :: lines rest := by
  unfold lines
  rw [List.splitOn_eq_splitOnP, List.splitOn_eq_splitOnP]
  apply List.splitOnP_append_cons_of_forall_mem
  · intro c hc
    exact beq_eq_false_iff_ne.mpr (ne_of_mem_of_not_mem hc h)
  · exact beq_self_eq_true '\n'

/-- The lines of a text, and the empty text behind the last newline. -/
theorem lines_flatMap {α : Type} {l : List α} {f : α → List Char} (h : ∀ a ∈ l, NoNewline (f a)) :
    lines (l.flatMap fun a => f a ++ ['\n']) = l.map f ++ [[]] := by
  induction l with
  | nil => rfl
  | cons a l ih =>
    obtain ⟨ha, hl⟩ := List.forall_mem_cons.mp h
    rw [List.flatMap_cons, List.append_assoc, List.singleton_append, lines_cons ha, ih hl, List.map_cons, List.cons_append]

end Lines

section Tokens

variable {sep : Char → Bool} {s token : List Char}

theorem tokens_append_sep {c : Char} (hc : sep c) (s t : List Char) : tokens sep (s ++ c :: t) = tokens sep s ++ tokens sep t := by
  unfold tokens
  rw [List.splitOnP_append_cons s t hc, List.filter_append]

theorem tokens_nil (sep : Char → Bool) : tokens sep [] = [] := rfl

theorem tokens_sep_cons {c : Char} (hc : sep c) (t : List Char) : tokens sep (c :: t) = tokens sep t := by
  rw [← List.nil_append (c :: t), tokens_append_sep hc, tokens_nil, List.nil_append]

theorem tokens_dropWhile (sep : Char → Bool) (s : List Char) : tokens sep (s.dropWhile sep) = tokens sep s := by
  induction s with
  | nil => rfl
  | cons c s ih =>
    by_cases hc : sep c
    · rw [List.dropWhile_cons_of_pos hc, ih, tokens_sep_cons hc]
    · rw [List.dropWhile_cons_of_neg hc]

theorem tokens_singleton (hne : token ≠ []) (h : ∀ c ∈ token, sep c = false) : tokens sep token = [token] := by
  unfold tokens
  rw [List.splitOnP_eq_singleton h]
  exact List.filter_cons_of_pos (decide_eq_true hne)

/-- The first token ends at the next separator or with the text. -/
theorem tokens_eq_cons (hne : s.dropWhile sep ≠ []) : tokens sep s =
    (s.dropWhile sep).takeWhile (fun c => !sep c) :: tokens sep (((s.dropWhile sep).dropWhile fun c => !sep c).tail) := by
  rw [← tokens_dropWhile]
  have hhead := List.head_dropWhile_not sep hne
  generalize s.dropWhile sep = text at hne hhead
  have htoken : text.takeWhile (fun c => !sep c) ≠ [] := by
    obtain ⟨c, rest, rfl⟩ := List.exists_cons_of_ne_nil hne
    rw [List.head_cons] at hhead
    rw [List.takeWhile_cons_of_pos (by rw [hhead]; rfl)]
    exact List.cons_ne_nil _ _
  have hsolid : ∀ c ∈ text.takeWhile (fun c => !sep c), sep c = false := fun c hc => by
    simpa using List.mem_takeWhile_imp hc
  conv_lhs => rw [← List.takeWhile_append_dropWhile (p := fun c => !sep c) (l := text)]
  rcases hrest : text.dropWhile (fun c => !sep c) with _ | ⟨c, rest⟩
  · rw [List.append_nil, tokens_singleton htoken hsolid]
    rfl
  · have hsep : sep c := by
      have hstop := List.head_dropWhile_not (fun c => !sep c) (l := text) (by rw [hrest]; exact List.cons_ne_nil _ _)
      simpa [hrest] using hstop
    rw [tokens_append_sep hsep, tokens_singleton htoken hsolid]
    rfl

theorem tokens_eq_nil_iff : tokens sep s = [] ↔ s.dropWhile sep = [] := by
  constructor
  · intro h
    by_contra hne
    rw [tokens_eq_cons hne] at h
    exact List.cons_ne_nil _ _ h
  · intro h
    rw [← tokens_dropWhile, h, tokens_nil]

end Tokens

section Words

variable {s t word : List Char} {texts : List (List Char)}

theorem words_append_blank {c : Char} (hc : isBlank c) (s t : List Char) : words (s ++ c :: t) = words s ++ words t :=
  tokens_append_sep hc s t

theorem words_nil : words [] = [] := rfl

theorem words_blanks_append (n : ℕ) (t : List Char) : words (List.replicate n ' ' ++ t) = words t := by
  induction n with
  | zero => rfl
  | succ n ih => rw [List.replicate_succ, List.cons_append, ← List.nil_append (' ' :: _), words_append_blank rfl, ih, words_nil,
      List.nil_append]

theorem words_append_blanks (n : ℕ) (s : List Char) : words (s ++ List.replicate n ' ') = words s := by
  cases n with
  | zero => rw [List.replicate_zero, List.append_nil]
  | succ n =>
    have hrest := words_blanks_append n []
    rw [List.append_nil, words_nil] at hrest
    rw [List.replicate_succ, words_append_blank rfl, hrest, List.append_nil]

theorem IsWord.words_eq (h : IsWord word) : words word = [word] :=
  tokens_singleton h.ne_nil fun c hc => (h.solid c hc).1

/-- The blanks that pad a word are no part of it. -/
theorem words_padRight (width : ℕ) (h : IsWord word) : words (padRight width word) = [word] := by
  unfold padRight
  rw [words_append_blanks, h.words_eq]

/-- What a separator joins has the tokens of its parts. -/
theorem tokens_intercalate {c : Char} (hc : sep c) (texts : List (List Char)) :
    tokens sep ([c].intercalate texts) = texts.flatMap (tokens sep) := by
  induction texts with
  | nil => rfl
  | cons s texts ih =>
    cases texts with
    | nil => rw [List.intercalate_singleton, List.flatMap_cons, List.flatMap_nil, List.append_nil]
    | cons t texts =>
      rw [List.intercalate_cons_cons, List.append_assoc, List.singleton_append, tokens_append_sep hc, ih]
      exact List.flatMap_cons.symm

theorem words_joinBlank (texts : List (List Char)) : words (joinBlank texts) = texts.flatMap words := tokens_intercalate rfl texts

theorem IsWord.noNewline (h : IsWord word) : NoNewline word := fun hmem => (h.solid _ hmem).2 rfl

theorem NoNewline.append (hs : NoNewline s) (ht : NoNewline t) : NoNewline (s ++ t) := fun hmem =>
  (List.mem_append.mp hmem).elim hs ht

theorem noNewline_blanks (n : ℕ) : NoNewline (List.replicate n ' ') := fun hmem =>
  absurd (List.eq_of_mem_replicate hmem) (by decide)

/-- What holds of the separator and of all parts holds of what they are joined to. -/
theorem forall_mem_intercalate {P : Char → Prop} {c : Char} (hc : P c) (h : ∀ text ∈ texts, ∀ a ∈ text, P a) :
    ∀ a ∈ [c].intercalate texts, P a := by
  induction texts with
  | nil => exact fun a ha => absurd ha List.not_mem_nil
  | cons s texts ih =>
    obtain ⟨hs, htexts⟩ := List.forall_mem_cons.mp h
    cases texts with
    | nil => rwa [List.intercalate_singleton]
    | cons t texts =>
      rw [List.intercalate_cons_cons, List.forall_mem_append, List.forall_mem_append, List.forall_mem_singleton]
      exact ⟨⟨hs, hc⟩, ih htexts⟩

theorem noNewline_joinBlank (h : ∀ text ∈ texts, NoNewline text) : NoNewline (joinBlank texts) := fun hmem =>
  forall_mem_intercalate (P := (· ≠ '\n')) (by decide) (fun text htext _ ha heq => h text htext (heq ▸ ha)) _ hmem rfl

end Words

end TextTable
