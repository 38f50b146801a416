import ParFlow.Lib.PyText
import ParFlow.Lib.TextScan

/-! Programs that read a text word by word: what they return depends on the words alone, and not on the white space between
them. -/

namespace WordStream

open TextScan TextStream PyText TextTable

/-- A text in which the bytes of the white space are its characters. -/
def PlainText (text : List Char) : Prop :=
  ∀ c ∈ text, c.toNat ≤ 127 ∧ (PyText.isSpace c → c = ' ' ∨ c = '\t' ∨ c = '\n')

/-- The program reads these words and returns the value. -/
def ReadsWords {α : Type} (m : ByteFile.Reader α) (words : List (List Char)) (a : α) : Prop :=
  ∀ text rest, PlainText text → split text = words ++ rest →
    ∃ after, m (utf8 text) = some (a, utf8 after) ∧ PlainText after ∧ split after = rest

variable {α β : Type} {m : ByteFile.Reader α} {k : α → ByteFile.Reader β} {text word : List Char}
  {words words' : List (List Char)} {a : α} {b : β}

theorem ReadsWords.pure (a : α) : ReadsWords (Pure.pure a : ByteFile.Reader α) [] a :=
  fun text _ hplain hwords => ⟨text, rfl, hplain, hwords⟩

theorem ReadsWords.bind (hm : ReadsWords m words a) (hk : ReadsWords (k a) words' b) :
    ReadsWords (m >>= k) (words ++ words') b := by
  intro text rest hplain hwords
  rw [List.append_assoc] at hwords
  obtain ⟨after, hread, hplain, hwords⟩ := hm text _ hplain hwords
  obtain ⟨after', hread', hplain, hwords⟩ := hk after rest hplain hwords
  refine ⟨after', ?_, hplain, hwords⟩
  change (m (utf8 text)).bind _ = _
  rw [hread]
  exact hread'

theorem ReadsWords.map (hm : ReadsWords m words a) (f : α → β) :
    ReadsWords (m >>= fun a => Pure.pure (f a)) words (f a) := by
  have h := hm.bind (k := fun a => Pure.pure (f a)) (ReadsWords.pure (f a))
  rwa [List.append_nil] at h

/-- A loop over items, where an invariant fixes what a round reads. -/
theorem ReadsWords.foldlM {σ ι : Type} {f : σ → ι → ByteFile.Reader σ} {g : σ → ι → σ} {enc : ι → List (List Char)}
    (I : σ → Prop) {l : List ι} (h : ∀ x ∈ l, ∀ st, I st → ReadsWords (f st x) (enc x) (g st x))
    (hg : ∀ x ∈ l, ∀ st, I st → I (g st x)) {st : σ} (hst : I st) : ReadsWords (l.foldlM f st) (l.flatMap enc) (l.foldl g st) := by
  induction l generalizing st with
  | nil => exact ReadsWords.pure st
  | cons x l ih =>
    rw [List.foldlM_cons, List.flatMap_cons, List.foldl_cons]
    apply (h x List.mem_cons_self st hst).bind
    exact ih (fun y hy => h y (List.mem_cons_of_mem x hy)) (fun y hy => hg y (List.mem_cons_of_mem x hy))
      (hg x List.mem_cons_self st hst)

/-! ## One word -/

theorem PlainText.append_left {s t : List Char} (h : PlainText (s ++ t)) : PlainText s := fun c hc =>
  h c (List.mem_append_left t hc)

theorem PlainText.append_right {s t : List Char} (h : PlainText (s ++ t)) : PlainText t := fun c hc =>
  h c (List.mem_append_right s hc)

theorem utf8EncodeChar_of_plain {c : Char} (hc : c.toNat ≤ 127) :
    String.utf8EncodeChar c = [c.val.toUInt8] ∧ c.val.toUInt8.toNat = c.toNat := by
  have hsize : c.utf8Size = 1 := Char.utf8Size_eq_one_iff.mpr (UInt32.le_iff_toNat_le.mpr hc)
  refine ⟨String.utf8EncodeChar_eq_singleton hsize, ?_⟩
  rw [UInt32.toNat_toUInt8]
  exact Nat.mod_eq_of_lt (Nat.lt_of_le_of_lt hc (by decide))

theorem isSpace_bytes (hplain : PlainText text) (hspace : ∀ c ∈ text, PyText.isSpace c) :
    ∀ b ∈ utf8 text, TextScan.isSpace b := by
  intro b hb
  obtain ⟨c, hc, hb⟩ := List.mem_flatMap.mp hb
  rcases (hplain c hc).2 (hspace c hc) with rfl | rfl | rfl
  all_goals
    rw [(utf8EncodeChar_of_plain (by decide)).1, List.mem_singleton] at hb
    rw [hb]
    rfl

theorem not_isSpace_bytes (hplain : PlainText text) (hsolid : ∀ c ∈ text, PyText.isSpace c = false) :
    ∀ b ∈ utf8 text, TextScan.isSpace b = false := by
  intro b hb
  obtain ⟨c, hc, hb⟩ := List.mem_flatMap.mp hb
  obtain ⟨hbytes, hvalue⟩ := utf8EncodeChar_of_plain (hplain c hc).1
  rw [hbytes, List.mem_singleton] at hb
  have hchar := hsolid c hc
  rw [PyText.isSpace, decide_eq_false_iff_not] at hchar
  rw [hb, TextScan.isSpace, decide_eq_false_iff_not, UInt8.le_iff_toNat_le, UInt8.le_iff_toNat_le, ← UInt8.toNat_inj, hvalue]
  change ¬ ((9 ≤ c.toNat ∧ c.toNat ≤ 13) ∨ c.toNat = 32)
  omega

/-- What reads a word behind white space reads it in front of the other words of a text. -/
theorem readsWords_of_scans (h : ∀ blanks, (∀ b ∈ blanks, TextScan.isSpace b) → utf8 word ≠ [] →
    (∀ b ∈ utf8 word, TextScan.isSpace b = false) → Scans m (blanks ++ utf8 word) a) : ReadsWords m [word] a := by
  intro text rest hplain hwords
  obtain ⟨blanks, after, rfl, hblanks, hafter, hrest⟩ := exists_word_of_split hwords
  obtain ⟨hne, hsolid⟩ := mem_split (by rw [hwords]; exact List.mem_cons_self : word ∈ split (blanks ++ word ++ after))
  have hbytes : utf8 word ≠ [] := by
    intro hnil
    have hlen := length_le_length_utf8 word
    rw [hnil, List.length_nil, Nat.le_zero] at hlen
    exact hne (List.eq_nil_of_length_eq_zero hlen)
  have hahead : BlankAhead (utf8 after) := by
    cases after with
    | nil => exact blankAhead_nil
    | cons c after =>
      have hc : PlainText [c] := fun b hb =>
        hplain b (List.mem_append_right _ (List.mem_singleton.mp hb ▸ List.mem_cons_self))
      have hspace := isSpace_bytes hc (List.forall_mem_singleton.mpr (hafter c rfl))
      rw [utf8_cons, (utf8EncodeChar_of_plain (hc c List.mem_cons_self).1).1] at hspace ⊢
      exact fun b hb => hspace b (List.mem_append_left _ (List.mem_of_mem_head? hb))
  refine ⟨after, ?_, hplain.append_right, hrest⟩
  rw [utf8_append, utf8_append]
  exact h _ (isSpace_bytes hplain.append_left.append_left hblanks) hbytes
    (not_isSpace_bytes hplain.append_left.append_right hsolid) _ hahead

theorem readsWords_takeWord (word : List Char) : ReadsWords takeWord [word] (utf8 word) :=
  readsWords_of_scans fun _ hblanks hne hword => scans_takeWord hblanks hne hword

theorem readsWords_takeInt (n : ℕ) : ReadsWords takeInt [decimal n] (n : ℤ) :=
  readsWords_of_scans fun _ hblanks _ _ => scans_takeInt n hblanks

theorem readsWords_takeDouble {x : ℚ} (h : Scans takeDouble (utf8 word) x) : ReadsWords takeDouble [word] x :=
  readsWords_of_scans fun _ hblanks _ _ => h.skip_blanks hblanks

end WordStream
