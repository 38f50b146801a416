import ParFlow.Keys.LocationDefs

/-! A dot is read as a slash only behind a letter, so that the dotted spelling of a key leads to it exactly when every
component but the last ends with a letter. -/

namespace ParFlow.Location

variable {ups : ℕ} {part p : List Char} {parts : List (List Char)}

/-! ## Components -/

theorem IsComponent.notMem (h : IsComponent part) {c : Char} (hc : c = '.' ∨ c = '/') : c ∉ part := by
  intro hmem
  have hok := h.rest c hmem
  rcases hc with rfl | rfl <;> exact absurd hok (by decide)

theorem IsComponent.ne_nil (h : IsComponent part) : part ≠ [] := by
  rintro rfl
  exact absurd h.first (by decide)

theorem IsComponent.exists_cons (h : IsComponent part) : ∃ c rest, part = c :: rest ∧ isLetter c := by
  obtain ⟨c, rest, rfl⟩ := List.exists_cons_of_ne_nil h.ne_nil
  exact ⟨c, rest, rfl, h.first⟩

theorem joinBy_cons (sep : Char) (part p : List Char) (parts : List (List Char)) :
    joinBy sep (part :: p :: parts) = part ++ sep :: joinBy sep (p :: parts) := by
  simp [joinBy, List.intercalate]

theorem joinBy_singleton (sep : Char) (part : List Char) : joinBy sep [part] = part := by
  simp [joinBy, List.intercalate]

theorem joinBy_ne_nil (sep : Char) (hp : p ≠ []) (parts : List (List Char)) : joinBy sep (p :: parts) ≠ [] := by
  cases parts with
  | nil => rwa [joinBy_singleton]
  | cons q parts => rw [joinBy_cons]; exact List.append_ne_nil_of_left_ne_nil hp _

theorem notMem_joinBy {c sep : Char} (hsep : c ≠ sep) (h : ∀ p ∈ parts, c ∉ p) : c ∉ joinBy sep parts := by
  induction parts with
  | nil => exact List.not_mem_nil
  | cons p parts ih =>
    obtain ⟨hp, hparts⟩ := List.forall_mem_cons.mp h
    cases parts with
    | nil => rwa [joinBy_singleton]
    | cons q parts =>
      rw [joinBy_cons, List.mem_append, List.mem_cons, not_or, not_or]
      exact ⟨hp, hsep, ih hparts⟩

theorem steps_succ (ups : ℕ) : steps (ups + 1) = ['.', '.', '/'] ++ steps ups := by
  simp [steps, List.replicate_succ]

theorem steps_append_joinBy (ups : ℕ) (p : List Char) (parts : List (List Char)) :
    steps ups ++ joinBy '/' (p :: parts) = joinBy '/' (List.replicate ups ['.', '.'] ++ p :: parts) := by
  induction ups with
  | zero => rfl
  | succ ups ih =>
    obtain ⟨q, rest, hq⟩ : ∃ q rest, List.replicate ups ['.', '.'] ++ p :: parts = q :: rest :=
      List.exists_cons_of_ne_nil (by simp)
    rw [steps_succ, List.append_assoc, ih, List.replicate_succ]
    change _ = joinBy '/' (['.', '.'] :: (List.replicate ups ['.', '.'] ++ p :: parts))
    rw [hq, joinBy_cons]
    rfl

/-! ## Paths -/

theorem initialSlashes_eq_zero {path : List Char} (h : path.head? ≠ some '/') : initialSlashes path = 0 := by
  unfold initialSlashes
  have hnil : path.takeWhile (· = '/') = [] := by
    cases path with
    | nil => rfl
    | cons c rest =>
      refine List.takeWhile_cons_of_neg ?_
      simpa using h
  rw [hnil]

/-- Steps to the parent stay when nothing is before them. -/
theorem foldl_pushComponent_steps (ups : ℕ) (n : ℕ) :
    (List.replicate ups ['.', '.']).foldl (pushComponent false) (List.replicate n ['.', '.']) =
      List.replicate (n + ups) ['.', '.'] := by
  induction ups generalizing n with
  | zero => rfl
  | succ ups ih =>
    have hstep : pushComponent false (List.replicate n ['.', '.']) ['.', '.'] = List.replicate (n + 1) ['.', '.'] := by
      unfold pushComponent
      rw [if_neg (by decide), if_pos, List.replicate_succ']
      cases n with
      | zero => exact Or.inr (Or.inl ⟨rfl, rfl⟩)
      | succ n => exact Or.inr (Or.inr (by simp [List.getLast?_replicate]))
    rw [List.replicate_succ, List.foldl_cons, hstep, ih, add_right_comm, add_assoc]

/-- A component of a path that is no step. -/
def IsName (p : List Char) : Prop := p ≠ [] ∧ p ≠ ['.'] ∧ p ≠ ['.', '.']

theorem foldl_pushComponent_names (h : ∀ p ∈ parts, IsName p) (comps : List (List Char)) :
    parts.foldl (pushComponent false) comps = comps ++ parts := by
  induction parts generalizing comps with
  | nil => exact (List.append_nil _).symm
  | cons p parts ih =>
    obtain ⟨hp, hparts⟩ := List.forall_mem_cons.mp h
    have hstep : pushComponent false comps p = comps ++ [p] := by
      unfold pushComponent
      rw [if_neg (not_or.mpr ⟨hp.1, hp.2.1⟩), if_pos (Or.inl hp.2.2)]
    rw [List.foldl_cons, hstep, ih hparts, List.append_assoc, List.singleton_append]

/-- Components in a path that starts with no slash. -/
theorem normpath_of_split {path : List Char} (hhead : path.head? ≠ some '/') (h : ∀ p ∈ parts, IsName p)
    (hsplit : (path.splitOn '/').foldl (pushComponent false) [] = List.replicate ups ['.', '.'] ++ parts) :
    normpath path = normalForm ups parts := by
  have hjoin : joinBy '/' (List.replicate ups ['.', '.'] ++ parts) = [] ↔ List.replicate ups ['.', '.'] ++ parts = [] := by
    constructor
    · intro hnil
      by_contra hne
      obtain ⟨q, rest, hq⟩ := List.exists_cons_of_ne_nil hne
      have hmem : q ∈ List.replicate ups ['.', '.'] ++ parts := hq ▸ List.mem_cons_self
      have hqne : q ≠ [] := by
        rcases List.mem_append.mp hmem with hmem | hmem
        · rw [List.eq_of_mem_replicate hmem]
          exact List.cons_ne_nil _ _
        · exact (h q hmem).1
      exact joinBy_ne_nil '/' hqne rest (hq ▸ hnil)
    · intro hnil
      rw [hnil]
      rfl
  unfold normpath normalForm
  simp only [initialSlashes_eq_zero hhead, List.replicate_zero, List.nil_append, ne_eq, not_true_eq_false, decide_false,
    hsplit, hjoin]

theorem notMem_comps (h : ∀ p ∈ parts, '/' ∉ p) : ∀ q ∈ List.replicate ups ['.', '.'] ++ parts, '/' ∉ q := by
  intro q hq
  rcases List.mem_append.mp hq with hq | hq
  · rw [List.eq_of_mem_replicate hq]
    decide
  · exact h q hq

theorem foldl_pushComponent (h : ∀ p ∈ parts, IsName p) :
    (List.replicate ups ['.', '.'] ++ parts).foldl (pushComponent false) [] = List.replicate ups ['.', '.'] ++ parts := by
  have hfold := foldl_pushComponent_steps ups 0
  rw [List.replicate_zero, zero_add] at hfold
  rw [List.foldl_append, hfold, foldl_pushComponent_names h]

theorem head?_joinBy_comps (hsolid : ∀ p ∈ parts, '/' ∉ p) (h : ∀ p ∈ parts, IsName p)
    (hne : List.replicate ups ['.', '.'] ++ parts ≠ []) :
    (joinBy '/' (List.replicate ups ['.', '.'] ++ parts)).head? ≠ some '/' := by
  obtain ⟨q, rest, hq⟩ := List.exists_cons_of_ne_nil hne
  have hmem : q ∈ List.replicate ups ['.', '.'] ++ parts := hq ▸ List.mem_cons_self
  obtain ⟨c, cs, rfl⟩ : ∃ c cs, q = c :: cs := by
    rcases List.mem_append.mp hmem with hmem | hmem
    · exact ⟨'.', ['.'], List.eq_of_mem_replicate hmem⟩
    · exact List.exists_cons_of_ne_nil (h q hmem).1
  have hc : c ≠ '/' := fun hc => notMem_comps hsolid _ hmem (hc ▸ List.mem_cons_self)
  rw [hq]
  cases rest with
  | nil => simpa [joinBy_singleton] using hc
  | cons r rest => simpa [joinBy_cons] using hc

theorem normpath_joinBy (hsolid : ∀ p ∈ parts, '/' ∉ p) (h : ∀ p ∈ parts, IsName p)
    (hne : List.replicate ups ['.', '.'] ++ parts ≠ []) :
    normpath (joinBy '/' (List.replicate ups ['.', '.'] ++ parts)) = normalForm ups parts := by
  refine normpath_of_split (head?_joinBy_comps hsolid h hne) h ?_
  rw [joinBy, List.splitOn_intercalate '/' (notMem_comps hsolid) hne, foldl_pushComponent h]

/-- Steps with nothing behind the last slash. -/
theorem normpath_steps (ups : ℕ) : normpath (steps ups) = normalForm ups [] := by
  have htext : steps ups = joinBy '/' (List.replicate ups ['.', '.'] ++ [[]]) := by
    rw [← steps_append_joinBy, joinBy_singleton, List.append_nil]
  have hsolid : ∀ p ∈ [([] : List Char)], '/' ∉ p := by simp
  have hnames : ∀ p ∈ ([] : List (List Char)), IsName p := fun p hp => absurd hp List.not_mem_nil
  have hhead : (steps ups).head? ≠ some '/' := by
    cases ups with
    | zero => exact (Option.some_ne_none '/').symm
    | succ ups => simp [steps_succ]
  refine normpath_of_split hhead hnames ?_
  have hfold := @foldl_pushComponent ups [] hnames
  rw [List.append_nil] at hfold
  rw [htext, joinBy, List.splitOn_intercalate '/' (notMem_comps hsolid) (by simp), List.foldl_append, hfold, List.append_nil]
  rfl

theorem normalForm_cons (ups : ℕ) (p : List Char) (parts : List (List Char)) :
    normalForm ups (p :: parts) = steps ups ++ joinBy '/' (p :: parts) := by
  rw [steps_append_joinBy]
  exact if_neg (by simp)

theorem normalForm_steps (ups : ℕ) : normalForm (ups + 1) [] = steps ups ++ ['.', '.'] := by
  have h := steps_append_joinBy ups ['.', '.'] []
  rw [joinBy_singleton, ← List.replicate_succ'] at h
  unfold normalForm
  rw [List.append_nil, if_neg (by simp [List.replicate_succ]), h]

/-! ## Substitutions -/

theorem dropLeadingDot_of_head {text : List Char} (h : text.head? ≠ some '.') : dropLeadingDot text = text := by
  unfold dropLeadingDot
  split
  · exact absurd rfl h
  · rfl

theorem slashDots_append {s : List Char} (hs : '.' ∉ s) (hne : s ≠ []) (letter : Bool) (t : List Char) :
    slashDots letter (s ++ t) = s ++ slashDots (s.getLast?.any isLetter) t := by
  induction s generalizing letter with
  | nil => exact absurd rfl hne
  | cons c s ih =>
    obtain ⟨hc, hs⟩ := not_or.mp (List.mem_cons.not.mp hs)
    rw [List.cons_append, slashDots, if_neg fun h => hc h.2.symm]
    cases s with
    | nil => rfl
    | cons d s =>
      rw [ih hs (List.cons_ne_nil d s), List.getLast?_cons_cons]
      rfl

theorem slashDots_of_notMem {s : List Char} (hs : '.' ∉ s) (letter : Bool) : slashDots letter s = s := by
  cases s with
  | nil => rfl
  | cons c s =>
    have h := slashDots_append hs (List.cons_ne_nil c s) letter []
    rwa [List.append_nil, slashDots, List.append_nil] at h

theorem slashDots_steps (ups : ℕ) (t : List Char) : slashDots false (steps ups ++ t) = steps ups ++ slashDots false t := by
  induction ups with
  | zero => rfl
  | succ ups ih =>
    rw [steps_succ, List.append_assoc, List.append_assoc, ← ih]
    rfl

/-- The dots between components become slashes exactly behind the letters. -/
theorem slashDots_joinBy_iff (h : ∀ p ∈ parts, IsComponent p) (letter : Bool) :
    slashDots letter (joinBy '.' parts) = joinBy '/' parts ↔ ∀ p ∈ parts.dropLast, p.getLast?.any isLetter := by
  induction parts generalizing letter with
  | nil => exact iff_of_true rfl fun p hp => absurd hp List.not_mem_nil
  | cons p parts ih =>
    obtain ⟨hp, hparts⟩ := List.forall_mem_cons.mp h
    have hdot : '.' ∉ p := hp.notMem (Or.inl rfl)
    cases parts with
    | nil =>
      rw [joinBy_singleton, joinBy_singleton, slashDots_of_notMem hdot]
      exact iff_of_true rfl fun q hq => absurd hq List.not_mem_nil
    | cons q parts =>
      rw [joinBy_cons, joinBy_cons, slashDots_append hdot hp.ne_nil, List.append_cancel_left_eq, slashDots,
        List.cons.injEq, ih hparts, List.dropLast_cons_cons, List.forall_mem_cons]
      apply and_congr_left
      intro _
      cases hletter : p.getLast?.any isLetter <;> decide

/-! ## The normal form -/

theorem IsComponent.isName (h : IsComponent part) : IsName part := by
  obtain ⟨c, rest, rfl, hc⟩ := h.exists_cons
  refine ⟨List.cons_ne_nil c rest, ?_, ?_⟩ <;>
  · rintro heq
    rw [(List.cons.inj heq).1] at hc
    exact absurd hc (by decide)

theorem dropLeadingDot_steps (ups : ℕ) (t : List Char) (ht : ups = 0 → t.head? ≠ some '.') :
    dropLeadingDot (steps ups ++ t) = steps ups ++ t := by
  cases ups with
  | zero => exact dropLeadingDot_of_head (ht rfl)
  | succ ups => rw [steps_succ]; rfl

theorem head?_joinBy (sep : Char) (hp : IsComponent p) (parts : List (List Char)) :
    (joinBy sep (p :: parts)).head? ≠ some '.' := by
  obtain ⟨c, rest, rfl, hc⟩ := hp.exists_cons
  have hdot : c ≠ '.' := by
    rintro rfl
    exact absurd hc (by decide)
  cases parts with
  | nil => simpa [joinBy_singleton] using hdot
  | cons q parts => simpa [joinBy_cons] using hdot

/-- Only a path of names can change further on. -/
theorem normalizeText_of_normpath {location t : List Char} (hpath : normpath location = steps ups ++ t)
    (ht : ups = 0 → t.head? ≠ some '.') : normalizeText location = steps ups ++ slashDots false t := by
  rw [normalizeText, hpath, dropLeadingDot_steps ups t ht, slashDots_steps]

theorem normalizeText_dotted (h : ∀ q ∈ p :: parts, IsComponent q) :
    normalizeText (dotted ups (p :: parts)) = steps ups ++ slashDots false (joinBy '.' (p :: parts)) := by
  obtain ⟨hp, -⟩ := List.forall_mem_cons.mp h
  have hhead := head?_joinBy '.' hp parts
  have hsolid : ∀ q ∈ [joinBy '.' (p :: parts)], '/' ∉ q := by
    rw [List.forall_mem_singleton]
    exact notMem_joinBy (by decide) fun q hq => (h q hq).notMem (Or.inr rfl)
  have hname : ∀ q ∈ [joinBy '.' (p :: parts)], IsName q := by
    rw [List.forall_mem_singleton]
    refine ⟨joinBy_ne_nil '.' hp.ne_nil parts, ?_, ?_⟩ <;>
    · intro heq
      exact hhead (by rw [heq]; rfl)
  apply normalizeText_of_normpath _ fun _ => hhead
  have hpath := @normpath_joinBy ups [joinBy '.' (p :: parts)] hsolid hname (by simp)
  rwa [← steps_append_joinBy, joinBy_singleton, normalForm_cons, joinBy_singleton] at hpath

theorem normalizeText_slashed (h : ∀ q ∈ p :: parts, IsComponent q) :
    normalizeText (slashed ups (p :: parts)) = normalForm ups (p :: parts) := by
  have hpath := @normpath_joinBy ups (p :: parts) (fun q hq => (h q hq).notMem (Or.inr rfl))
    (fun q hq => (h q hq).isName) (by simp)
  rw [← steps_append_joinBy, normalForm_cons] at hpath
  have hdot : '.' ∉ joinBy '/' (p :: parts) := notMem_joinBy (by decide) fun q hq => (h q hq).notMem (Or.inl rfl)
  rw [slashed, normalForm_cons, normalizeText_of_normpath hpath fun _ =>
    head?_joinBy '/' (List.forall_mem_cons.mp h).1 parts, slashDots_of_notMem hdot]

theorem normalizeText_steps (ups : ℕ) : normalizeText (steps ups) = normalForm ups [] := by
  cases ups with
  | zero => decide
  | succ ups =>
    have hpath := normpath_steps (ups + 1)
    rw [normalForm_steps] at hpath ⊢
    rw [normalizeText, hpath]
    cases ups with
    | zero => rfl
    | succ ups => rw [dropLeadingDot_steps _ _ fun h => absurd h ups.succ_ne_zero, slashDots_steps]; rfl

theorem normalizeText_normalForm (h : ∀ q ∈ parts, IsComponent q) :
    normalizeText (normalForm ups parts) = normalForm ups parts := by
  cases parts with
  | nil =>
    cases ups with
    | zero => decide
    | succ ups =>
      have hpath := @normpath_joinBy (ups + 1) [] (by simp) (by simp) (by simp)
      rw [List.append_nil, List.replicate_succ', ← steps_append_joinBy, joinBy_singleton, normalForm_steps] at hpath
      rw [normalForm_steps, normalizeText, hpath]
      cases ups with
      | zero => rfl
      | succ ups => rw [dropLeadingDot_steps _ _ fun h => absurd h ups.succ_ne_zero, slashDots_steps]; rfl
  | cons p parts =>
    have hslashed := @normalizeText_slashed ups p parts h
    rwa [slashed, ← normalForm_cons] at hslashed

/-- The dotted spelling of a key is normalized like the slashed one exactly when every component but the last ends with a
letter. -/
theorem spellingsAgree_iff (h : ∀ p ∈ parts, IsComponent p) :
    SpellingsAgree ups parts ↔ ∀ p ∈ parts.dropLast, p.getLast?.any isLetter := by
  have hslashes : normalizeText (slashed ups parts) = normalForm ups parts := by
    cases parts with
    | nil => rw [slashed, joinBy, List.intercalate_nil, List.append_nil, normalizeText_steps]
    | cons p parts => exact normalizeText_slashed h
  have hdots : normalizeText (dotted ups parts) = normalForm ups parts ↔ ∀ p ∈ parts.dropLast, p.getLast?.any isLetter := by
    cases parts with
    | nil =>
      rw [dotted, joinBy, List.intercalate_nil, List.append_nil, normalizeText_steps]
      exact iff_of_true rfl fun p hp => absurd hp List.not_mem_nil
    | cons p parts =>
      rw [normalizeText_dotted h, normalForm_cons, List.append_cancel_left_eq, slashDots_joinBy_iff h]
  rw [← hdots]
  constructor
  · exact fun hagree => hagree.dots
  · intro heq
    have hsame := heq.trans hslashes.symm
    refine ⟨heq, hslashes, normalizeText_normalForm h, fun Obj V D db self => ?_, fun Obj V D db self skipDefault => ?_,
      fun Obj V D db self => ?_⟩
    · rw [KeyDatabase.select, normalizeLocation, normalizeLocation, hsame]
    · rw [KeyDatabase.value, normalizeLocation, normalizeLocation, hsame]
    · rw [KeyDatabase.details, normalizeLocation, normalizeLocation, hsame]

theorem geomPerm_spellingsAgree : SpellingsAgree 1 [['G', 'e', 'o', 'm'], ['P', 'e', 'r', 'm']] := by
  refine (spellingsAgree_iff ?_).mpr (by decide)
  rw [List.forall_mem_cons, List.forall_mem_singleton]
  exact ⟨⟨by decide, by simp⟩, ⟨by decide, by simp⟩⟩

/-- A component that ends with a digit keeps the dot behind it. -/
theorem digit_not_spellingsAgree :
    (∀ p ∈ [['u', '1'], ['P', 'e', 'r', 'm']], IsComponent p) ∧ ¬ SpellingsAgree 0 [['u', '1'], ['P', 'e', 'r', 'm']] := by
  constructor
  · rw [List.forall_mem_cons, List.forall_mem_singleton]
    exact ⟨⟨by decide, by simp⟩, ⟨by decide, by simp⟩⟩
  · intro h
    exact absurd h.dots (by decide)

end ParFlow.Location
