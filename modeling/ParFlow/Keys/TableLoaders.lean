import ParFlow.Keys.TableDefs

/-! The two loaders of tables share the processing of the lines. They differ in the tokens of a line that is empty or a
comment: both skip it only if the sign of the comment stands alone for both. -/

namespace ParFlow.TableToProperties

open OrderedDict PyText TextTable

variable {R : Type} {definition : List (List Char × KeyDef)} {float : List Char → Option R} {b : Builder R}
  {tokens cells : List (List Char)} {text : List Char} {lines : List TableLine}

/-! ## Tokens -/

theorem split_of_isCell (h : IsCell text) : split text = [text] := tokens_singleton h.1 fun c hc => (h.2 c hc).1

theorem csvTokens_row (hne : cells ≠ []) (hcells : ∀ cell ∈ cells, IsCell cell) :
    csvTokens ([','].intercalate cells) = cells := by
  have hcomma : ∀ cell ∈ cells, ',' ∉ cell := fun cell hcell hmem => ((hcells cell hcell).2 _ hmem).2 rfl
  rw [csvTokens, List.splitOn_intercalate ',' hcomma hne]
  have hstrip : cells.map strip = cells.map id := List.map_congr_left fun cell hcell =>
    strip_of_split (split_of_isCell (hcells cell hcell))
  rw [hstrip, List.map_id]

theorem txtTokens_row (hcells : ∀ cell ∈ cells, IsCell cell) : txtTokens ([' '].intercalate cells) = cells := by
  rw [txtTokens, split, tokens_intercalate rfl]
  exact (List.flatMap_congr fun cell hcell => split_of_isCell (hcells cell hcell)).trans (List.flatMap_singleton' cells)

/-- The first token of a csv line. -/
theorem head?_csvTokens (text : List Char) : (csvTokens text).head? = some (strip (text.takeWhile (· ≠ ','))) := by
  have hfirst : ∀ text : List Char, (text.splitOn ',').head? = some (text.takeWhile (· ≠ ',')) := by
    intro text
    rw [List.splitOn_eq_splitOnP]
    induction text with
    | nil => rfl
    | cons c text ih =>
      rw [List.splitOnP_cons_eq_if_modifyHead]
      by_cases hc : c = ','
      · rw [if_pos (beq_iff_eq.mpr hc), List.takeWhile_cons_of_neg (by simp [hc])]
        rfl
      · rw [if_neg (by simpa using hc), List.head?_modifyHead, ih, List.takeWhile_cons_of_pos (by simp [hc])]
        rfl
  rw [csvTokens, List.head?_map, hfirst]
  rfl

/-! ## Comments -/

def IsComment (tokens : List (List Char)) : Prop := tokens.head? = some ['#']

instance (tokens : List (List Char)) : Decidable (IsComment tokens) := inferInstanceAs (Decidable (_ = _))

/-- The outcome of a run but for the comments that were kept. -/
def stateOf (r : Except Fault (Bool × Builder R)) : Except Fault (Bool × TableState R) := r.map fun s => (s.1, s.2.state)

theorem readTokens_comment (h : IsComment tokens) (s : Bool × Builder R) :
    ∃ b', readTokens definition float s tokens = .ok (s.1, b') ∧ b'.state = s.2.state := by
  have hne : tokens ≠ [] := by
    rintro rfl
    cases h
  unfold IsComment at h
  obtain ⟨dataLine, b⟩ := s
  cases dataLine with
  | true =>
    refine ⟨b, ?_, rfl⟩
    rw [readTokens, if_pos rfl, processDataLine, if_pos (Or.inr h)]
    rfl
  | false =>
    refine ⟨{ b with tableComments := b.tableComments ++ [[' '].intercalate tokens] }, ?_, rfl⟩
    rw [readTokens, if_neg Bool.false_ne_true, processFirstLine, if_neg hne, if_pos h]

theorem readTokens_congr (h : ¬ IsComment tokens) {s s' : Bool × Builder R} (hfirst : s.1 = s'.1)
    (hstate : s.2.state = s'.2.state) :
    stateOf (readTokens definition float s tokens) = stateOf (readTokens definition float s' tokens) := by
  obtain ⟨dataLine, b⟩ := s
  obtain ⟨dataLine', b'⟩ := s'
  obtain rfl : dataLine = dataLine' := hfirst
  unfold IsComment at h
  dsimp only at hstate
  cases dataLine with
  | true =>
    simp only [readTokens, if_true, hstate]
    cases processDataLine definition float b'.state tokens <;> rfl
  | false =>
    simp only [readTokens, Bool.false_eq_true, if_false, processFirstLine]
    by_cases hne : tokens = []
    · rw [if_pos hne, if_pos hne]
      exact congrArg (fun state => Except.ok (false, state)) hstate
    · rw [if_neg hne, if_neg hne, if_neg h, if_neg h, hstate]
      cases orientation definition b'.state tokens <;> rfl

/-- Comments make no difference to the state. -/
theorem stateOf_foldlM (lines : List (List (List Char))) {s s' : Bool × Builder R} (hfirst : s.1 = s'.1)
    (hstate : s.2.state = s'.2.state) : stateOf (lines.foldlM (readTokens definition float) s) =
      stateOf ((lines.filter fun tokens => ¬ IsComment tokens).foldlM (readTokens definition float) s') := by
  induction lines generalizing s s' with
  | nil => exact congrArg Except.ok (Prod.ext hfirst hstate)
  | cons tokens lines ih =>
    by_cases hcomment : IsComment tokens
    · obtain ⟨b', hread, hb'⟩ := @readTokens_comment _ definition float _ hcomment s
      rw [List.filter_cons_of_neg (by simpa using hcomment), List.foldlM_cons, hread]
      exact ih hfirst (hb'.trans hstate)
    · have hread := @readTokens_congr _ definition float _ hcomment _ _ hfirst hstate
      rw [List.filter_cons_of_pos (by simpa using hcomment), List.foldlM_cons, List.foldlM_cons]
      cases hs : readTokens definition float s tokens with
      | error fault =>
        cases hs' : readTokens definition float s' tokens with
        | error fault' => rw [hs, hs'] at hread; cases hread; rfl
        | ok after' => rw [hs, hs'] at hread; cases hread
      | ok after =>
        cases hs' : readTokens definition float s' tokens with
        | error fault' => rw [hs, hs'] at hread; cases hread
        | ok after' =>
          rw [hs, hs'] at hread
          obtain ⟨hnext, hsame⟩ := Prod.mk.inj (Except.ok.inj hread)
          exact ih hnext hsame

/-! ## Lines that both loaders skip -/

theorem filter_tokens {tokenizer : TableLine → List (List Char)}
    (hrows : ∀ cells, .row cells ∈ lines → tokenizer (.row cells) = cells)
    (hextras : ∀ text, .extra text ∈ lines → IsComment (tokenizer (.extra text))) :
    ((lines.map tokenizer).filter fun tokens => ¬ IsComment tokens) =
      (lines.filterMap TableLine.row?).filter fun tokens => ¬ IsComment tokens := by
  induction lines with
  | nil => rfl
  | cons line lines ih =>
    have hrest := ih (fun cells h => hrows cells (List.mem_cons_of_mem _ h))
      fun text h => hextras text (List.mem_cons_of_mem _ h)
    cases line with
    | row cells =>
      have hstep : (TableLine.row cells :: lines).filterMap TableLine.row? = cells :: lines.filterMap TableLine.row? := rfl
      rw [List.map_cons, hrows cells List.mem_cons_self, hstep, List.filter_cons, List.filter_cons, hrest]
    | extra text =>
      have hcomment := hextras text List.mem_cons_self
      have hstep : (TableLine.extra text :: lines).filterMap TableLine.row? = lines.filterMap TableLine.row? := rfl
      rw [List.map_cons, hstep, List.filter_cons_of_neg (by simpa using hcomment), hrest]

/-- A loader that skips what is no row does what the rows do. -/
theorem load_of_rows {tokenizer : TableLine → List (List Char)}
    (hrows : ∀ cells, .row cells ∈ lines → tokenizer (.row cells) = cells)
    (hextras : ∀ text, .extra text ∈ lines → IsComment (tokenizer (.extra text))) {c : Builder R}
    (hload : loadTokens definition float b (lines.filterMap TableLine.row?) = .ok c) :
    ∃ c', loadTokens definition float b (lines.map tokenizer) = .ok c' ∧ c'.state = c.state := by
  have hstates : stateOf ((lines.map tokenizer).foldlM (readTokens definition float) (false, b)) =
      stateOf ((lines.filterMap TableLine.row?).foldlM (readTokens definition float) (false, b)) := by
    rw [stateOf_foldlM (lines.map tokenizer) rfl rfl, filter_tokens hrows hextras, ← stateOf_foldlM _ rfl rfl]
  unfold loadTokens at hload ⊢
  cases hrun : (lines.filterMap TableLine.row?).foldlM (readTokens definition float) (false, b) with
  | error fault => rw [hrun] at hload; cases hload
  | ok s =>
    rw [hrun] at hload hstates
    cases hload
    cases hrun' : (lines.map tokenizer).foldlM (readTokens definition float) (false, b) with
    | error fault => rw [hrun'] at hstates; cases hstates
    | ok s' =>
      rw [hrun'] at hstates
      exact ⟨s'.2, rfl, (Prod.mk.inj (Except.ok.inj hstates)).2⟩

theorem isComment_csv (h : StandsAlone text) : IsComment (csvTokens text) := by
  rw [IsComment, head?_csvTokens, h.csv]

theorem loadersAgree_of_standsAlone {extras : List (List Char)} (hextras : ∀ text ∈ extras, IsExtra text ∧ StandsAlone text)
    (h : IsTable definition float extras b lines) : LoadersAgree definition float b lines := by
  have hcells : ∀ cells, .row cells ∈ lines → ∀ cell ∈ cells, ∀ c ∈ cell, isBreak c = false := by
    intro cells hmem cell hcell c hc
    cases hbreak : isBreak c with
    | false => rfl
    | true =>
      have hsolid := (((h.cells cells hmem).2 cell hcell).2 c hc).1
      rw [isSpace_of_isBreak hbreak] at hsolid
      cases hsolid
  have hlines : ∀ text : TableLine → List Char, (∀ line ∈ lines, ∀ c ∈ text line, isBreak c = false) →
      fileLines (lines.flatMap fun line => text line ++ ['\n']) = lines.map text := by
    intro text hbreaks
    rw [← fileLines_flatMap (List.forall_mem_map.mpr hbreaks), List.flatMap_map]
  have hcsv := hlines TableLine.csv fun line hline => by
    cases line with
    | row cells => exact forall_mem_intercalate rfl (hcells cells hline)
    | extra text => exact (hextras text (h.extras text hline)).1.line
  have htxt := hlines TableLine.txt fun line hline => by
    cases line with
    | row cells => exact forall_mem_intercalate rfl (hcells cells hline)
    | extra text => exact (hextras text (h.extras text hline)).1.line
  obtain ⟨final, hfinal⟩ := h.accepted
  obtain ⟨c, hc, hcstate⟩ := @load_of_rows _ definition float b lines (fun line => csvTokens line.csv)
    (fun cells hmem => csvTokens_row (h.cells cells hmem).1 (h.cells cells hmem).2)
    (fun text hmem => isComment_csv (hextras text (h.extras text hmem)).2) final hfinal
  obtain ⟨t, ht, htstate⟩ := @load_of_rows _ definition float b lines (fun line => txtTokens line.txt)
    (fun cells hmem => txtTokens_row (h.cells cells hmem).2)
    (fun text hmem => (hextras text (h.extras text hmem)).2.txt) final hfinal
  refine ⟨c, t, ?_, ?_, ?_, ?_, ?_⟩
  · rw [loadCsvFile, hcsv, List.map_map]
    exact hc
  · rw [loadTxtFile, htxt, List.map_map]
    exact ht
  · rw [hcstate, htstate]
  · rw [hcstate, htstate]
  · rw [hcstate, htstate]

/-! ## Lines that one of them does not skip -/

theorem cell_of_aliasToPfkey (d : TableDefinition) {token : List Char} {kd : List Char × KeyDef}
    (h : aliasToPfkey d.definition token = some kd) : IsCell token ∧ token.head? ≠ some '#' := by
  have hmem : token ∈ kd.2.aliases := by simpa using List.find?_some h
  exact d.aliases_cell kd (List.mem_of_find?_eq_some h) token hmem

theorem cell_of_mem_keyAlias (d : TableDefinition) {token : List Char} (h : token ∈ keyAlias d.definition) :
    IsCell token ∧ token.head? ≠ some '#' := by
  obtain ⟨aliases, hkey⟩ := d.key_str
  rw [keyAlias, hkey] at h
  exact d.aliases_cell _ (mem_of_get hkey) token h

theorem exists_keyAlias (d : TableDefinition) : ∃ token, token ∈ keyAlias d.definition := by
  obtain ⟨aliases, hkey⟩ := d.key_str
  obtain ⟨token, rest, haliases⟩ := List.exists_cons_of_ne_nil (d.aliases_ne_nil _ (mem_of_get hkey))
  refine ⟨token, ?_⟩
  rw [keyAlias, hkey]
  change token ∈ aliases
  rw [show aliases = token :: rest from haliases]
  exact List.mem_cons_self

theorem isSome_of_mem_keyAlias (d : TableDefinition) {token : List Char} (h : token ∈ keyAlias d.definition) :
    (aliasToPfkey d.definition token).isSome := by
  obtain ⟨aliases, hkey⟩ := d.key_str
  rw [keyAlias, hkey] at h
  rw [aliasToPfkey, List.find?_isSome]
  exact ⟨_, mem_of_get hkey, decide_eq_true h⟩

/-- The column of a token is one of its places in the line. -/
theorem getElem?_of_get_indexColumns {token : List Char} {i : ℕ} (h : get token (indexColumns [] tokens) = some i) :
    tokens[i]? = some token := by
  have hmem := (mem_foldl_assign (mem_of_get h)).resolve_left List.not_mem_nil
  exact List.mem_zipIdx_iff_getElem?.mp hmem

theorem mainKey_cases (columnIndex : List (List Char × ℕ)) (mainKey : List Char) :
    columnIndex.foldl (fun mainKey col => if col.1 ∈ keyAlias definition then col.1 else mainKey) mainKey ∈
        keyAlias definition ∨
      columnIndex.foldl (fun mainKey col => if col.1 ∈ keyAlias definition then col.1 else mainKey) mainKey = mainKey := by
  induction columnIndex generalizing mainKey with
  | nil => exact Or.inr rfl
  | cons col columnIndex ih =>
    rw [List.foldl_cons]
    split_ifs with hcol
    · exact Or.inl ((ih col.1).elim id fun heq => by rw [heq]; exact hcol)
    · exact ih mainKey

/-- The first token of such a line is no property. -/
structure IsStray (token : List Char) : Prop where
  ne_comment : token ≠ ['#']
  blank_or_comment : token = [] ∨ token.head? = some '#'

theorem IsStray.ne_cell (h : IsStray text) {token : List Char} (hcell : IsCell token ∧ token.head? ≠ some '#') :
    text ≠ token := by
  rintro rfl
  exact h.blank_or_comment.elim hcell.1.1 hcell.2

theorem orientation_of_stray (d : TableDefinition) (h : IsStray text) {s s' : TableState R}
    (horient : orientation d.definition s (text :: tokens) = .ok s') :
    s'.propsInRowHeader = some false ∧ s'.columnIndex = indexColumns s.columnIndex (text :: tokens) := by
  have hnone : aliasToPfkey d.definition text = none := by
    cases hfind : aliasToPfkey d.definition text with
    | none => rfl
    | some kd => exact absurd rfl (h.ne_cell (cell_of_aliasToPfkey d hfind))
  have hmem : text ∈ (text :: tokens).filter fun token => (aliasToPfkey d.definition token).isNone :=
    List.mem_filter.mpr ⟨List.mem_cons_self, by rw [hnone]; rfl⟩
  unfold orientation at horient
  dsimp only at horient
  rw [if_neg (List.ne_nil_of_mem hmem)] at horient
  split_ifs at horient
  cases horient
  exact ⟨rfl, rfl⟩

/-- The next line is no line of a table with such a header. -/
theorem propLine_of_stray (d : TableDefinition) (h : IsStray text) {s : TableState R} (token : List Char)
    (hcolumns : s.columnIndex = indexColumns [] (text :: tokens)) :
    ∀ s', propLine d.definition float s [token] ≠ .ok s' := by
  intro s' hline
  unfold propLine at hline
  dsimp only at hline
  have hmain := @mainKey_cases d.definition s.columnIndex "key".toList
  generalize s.columnIndex.foldl (fun mainKey col => if col.1 ∈ keyAlias d.definition then col.1 else mainKey)
    "key".toList = mainKey at hline hmain
  cases hcolumn : get mainKey s.columnIndex with
  | none => rw [hcolumn] at hline; cases hline
  | some column =>
    have hplace := getElem?_of_get_indexColumns (hcolumns ▸ hcolumn)
    cases column with
    | zero =>
      have hfirst : text = mainKey := Option.some.inj hplace
      rcases hmain with hmem | heq
      · exact h.ne_cell (cell_of_mem_keyAlias d hmem) hfirst
      · exact h.ne_cell ⟨by simp [heq, IsCell, isSpace], by rw [heq]; decide⟩ hfirst
    | succ column =>
      rw [hcolumn] at hline
      cases hline

theorem loadTokens_of_stray (d : TableDefinition) (h : IsStray text) {token : List Char}
    (htoken : token ∈ keyAlias d.definition) (tokens : List (List Char)) :
    ∀ c, loadTokens d.definition float (newBuilder R) [text :: tokens, [token]] ≠ .ok c := by
  intro c hload
  have hhead : (text :: tokens).head? ≠ some ['#'] := fun heq => h.ne_comment (Option.some.inj heq)
  have hcomment : [token].head? ≠ some ['#'] := by
    intro heq
    exact (cell_of_mem_keyAlias d htoken).2 (by rw [Option.some.inj heq]; rfl)
  rw [loadTokens, List.foldlM_cons, readTokens, if_neg Bool.false_ne_true, processFirstLine, if_neg (List.cons_ne_nil _ _),
    if_neg hhead] at hload
  cases horient : orientation d.definition (newBuilder R).state (text :: tokens) with
  | error fault => rw [horient] at hload; cases hload
  | ok state =>
    obtain ⟨hprops, hcolumns⟩ := orientation_of_stray d h horient
    rw [horient] at hload
    cases hline : processDataLine d.definition float state [token] with
    | error fault =>
      change ((readTokens d.definition float (true, ⟨state, []⟩) [token]).bind _).map _ = _ at hload
      rw [readTokens, if_pos rfl, hline] at hload
      cases hload
    | ok s' =>
      rw [processDataLine, if_neg (not_or.mpr ⟨List.cons_ne_nil _ _, hcomment⟩), hprops, if_neg (by decide)] at hline
      exact propLine_of_stray d h token hcolumns s' hline

/-- A table that has only the name of the key column. -/
theorem exists_loadTokens_header (d : TableDefinition) {token : List Char} (htoken : token ∈ keyAlias d.definition) :
    ∃ c, loadTokens d.definition float (newBuilder R) [[token]] = .ok c := by
  have hcomment : [token].head? ≠ some ['#'] := by
    intro heq
    exact (cell_of_mem_keyAlias d htoken).2 (by rw [Option.some.inj heq]; rfl)
  have hfound : ([token].filter fun token => (aliasToPfkey d.definition token).isNone) = [] := by
    have hsome := isSome_of_mem_keyAlias d htoken
    rw [List.filter_cons_of_neg, List.filter_nil]
    rw [Option.isNone_iff_eq_none]
    intro hnone
    rw [hnone] at hsome
    cases hsome
  rw [loadTokens, List.foldlM_cons, readTokens, if_neg Bool.false_ne_true, processFirstLine, if_neg (List.cons_ne_nil _ _),
    if_neg hcomment, orientation, if_pos hfound]
  exact ⟨_, rfl⟩

theorem isTable_header (d : TableDefinition) {extras : List (List Char)} (htext : text ∈ extras) {token : List Char}
    (htoken : token ∈ keyAlias d.definition) :
    IsTable d.definition float extras (newBuilder R) [.extra text, .row [token]] := by
  refine ⟨fun cells hmem => ?_, fun extra hmem => ?_, exists_loadTokens_header d htoken⟩
  · simp only [List.mem_cons, reduceCtorEq, List.not_mem_nil, or_false, false_or, TableLine.row.injEq] at hmem
    rw [hmem]
    exact ⟨List.cons_ne_nil _ _, List.forall_mem_singleton.mpr (cell_of_mem_keyAlias d htoken).1⟩
  · simp only [List.mem_cons, reduceCtorEq, List.not_mem_nil, or_false, TableLine.extra.injEq] at hmem
    rwa [hmem]

theorem standsAlone_of_loadersAgree (d : TableDefinition) (hextra : IsExtra text) {token : List Char}
    (htoken : token ∈ keyAlias d.definition)
    (h : LoadersAgree d.definition float (newBuilder R) [.extra text, .row [token]]) : StandsAlone text := by
  have hcell := cell_of_mem_keyAlias d htoken
  have htokenBreaks : ∀ c ∈ token, isBreak c = false := by
    intro c hc
    cases hbreak : isBreak c with
    | false => rfl
    | true =>
      have hsolid := (hcell.1.2 c hc).1
      rw [isSpace_of_isBreak hbreak] at hsolid
      cases hsolid
  have hlines : fileLines (text ++ ['\n'] ++ (token ++ ['\n'])) = [text, token] := by
    have hbreaks : ∀ line ∈ [text, token], ∀ c ∈ line, isBreak c = false :=
      List.forall_mem_cons.mpr ⟨hextra.line, List.forall_mem_singleton.mpr htokenBreaks⟩
    have hboth := fileLines_flatMap hbreaks
    rwa [List.flatMap_cons, List.flatMap_singleton] at hboth
  have hrow : csvTokens token = [token] ∧ txtTokens token = [token] := by
    have hcells : ∀ cell ∈ [token], IsCell cell := List.forall_mem_singleton.mpr hcell.1
    have hrows := And.intro (csvTokens_row (List.cons_ne_nil _ _) hcells) (txtTokens_row hcells)
    rwa [List.intercalate_singleton, List.intercalate_singleton] at hrows
  obtain ⟨c, t, hcsv, htxt, -⟩ := h
  have hrowText : (TableLine.row [token]).csv = token ∧ (TableLine.row [token]).txt = token :=
    ⟨List.intercalate_singleton, List.intercalate_singleton⟩
  rw [loadCsvFile, List.flatMap_cons, List.flatMap_singleton, hrowText.1] at hcsv
  rw [loadTxtFile, List.flatMap_cons, List.flatMap_singleton, hrowText.2] at htxt
  change loadTokens _ _ _ ((fileLines (text ++ ['\n'] ++ (token ++ ['\n']))).map csvTokens) = _ at hcsv
  change loadTokens _ _ _ ((fileLines (text ++ ['\n'] ++ (token ++ ['\n']))).map txtTokens) = _ at htxt
  rw [hlines, List.map_cons, List.map_singleton, hrow.1] at hcsv
  rw [hlines, List.map_cons, List.map_singleton, hrow.2] at htxt
  have hfirst : strip (text.takeWhile (· ≠ ',')) = ['#'] := by
    by_contra hne
    have hstray : IsStray (strip (text.takeWhile (· ≠ ','))) := by
      refine ⟨hne, hextra.blank_or_comment.imp (fun hblank => ?_) fun hcomment => ?_⟩
      · rw [strip, List.dropWhile_eq_nil_iff.mpr fun c hc => hblank c ((List.takeWhile_sublist _).subset hc)]
        rfl
      · refine head?_strip ?_ (by decide)
        cases text with
        | nil => cases hcomment
        | cons c text =>
          rw [Option.some.inj hcomment]
          rfl
    obtain ⟨first, rest, htokens⟩ : ∃ first rest, csvTokens text = first :: rest := by
      cases htokens : csvTokens text with
      | nil => have hhead := head?_csvTokens text; rw [htokens] at hhead; cases hhead
      | cons first rest => exact ⟨first, rest, rfl⟩
    have hhead := head?_csvTokens text
    rw [htokens] at hhead hcsv
    exact loadTokens_of_stray d (Option.some.inj hhead ▸ hstray) htoken rest c hcsv
  have hcomment : text.head? = some '#' := by
    refine hextra.blank_or_comment.resolve_left fun hblank => ?_
    rw [strip, List.dropWhile_eq_nil_iff.mpr fun c hc => hblank c ((List.takeWhile_sublist _).subset hc)] at hfirst
    cases hfirst
  obtain ⟨word, words, hwords, hword⟩ := exists_head_split hcomment (by decide)
  refine ⟨hfirst, ?_⟩
  by_contra hne
  have hstray : IsStray word := ⟨fun heq => hne (by rw [hwords, heq]; rfl), Or.inr hword⟩
  rw [txtTokens, hwords] at htxt
  exact loadTokens_of_stray d hstray htoken words t htxt

/-- The loaders agree on all tables with these lines exactly when each line is a comment for both. -/
theorem loadersAgree_iff (d : TableDefinition) (float : List Char → Option R) (extras : List (List Char))
    (hextras : ∀ text ∈ extras, IsExtra text) :
    (∀ b lines, IsTable d.definition float extras b lines → LoadersAgree d.definition float b lines) ↔
      ∀ text ∈ extras, StandsAlone text := by
  constructor
  · intro h text htext
    obtain ⟨token, htoken⟩ := exists_keyAlias d
    exact standsAlone_of_loadersAgree d (hextras text htext) htoken (h (newBuilder R) _ (isTable_header d htext htoken))
  · intro h b lines htable
    exact loadersAgree_of_standsAlone (fun text htext => ⟨hextras text htext, h text htext⟩) htable

/-! ## The keys of the subsurface -/

/-- Names of letters, digits and points are cells. -/
theorem isCell_of_name (hne : text ≠ []) (h : text.all fun c => c.isAlphanum || c == '.') :
    IsCell text ∧ text.head? ≠ some '#' := by
  have hchar : ∀ c ∈ text, (isSpace c = false ∧ c ≠ ',') ∧ c ≠ '#' := by
    intro c hc
    have hname := List.all_eq_true.mp h c hc
    have hrange : 46 ≤ c.toNat ∧ c.toNat ≤ 122 := by
      simp only [Char.isAlphanum, Char.isAlpha, Char.isUpper, Char.isLower, Char.isDigit, Bool.or_eq_true, Bool.and_eq_true,
        decide_eq_true_iff, beq_iff_eq, UInt32.le_iff_toNat_le, Char.toNat_val] at hname
      rcases hname with ((hname | hname) | hname) | rfl
      · exact ⟨le_trans (by decide) hname.1, le_trans hname.2 (by decide)⟩
      · exact ⟨le_trans (by decide) hname.1, le_trans hname.2 (by decide)⟩
      · exact ⟨le_trans (by decide) hname.1, le_trans hname.2 (by decide)⟩
      · decide
    refine ⟨⟨?_, ?_⟩, ?_⟩
    · rw [isSpace, decide_eq_false_iff_not]
      omega
    · rintro rfl
      exact absurd hrange (by decide)
    · rintro rfl
      exact absurd hrange (by decide)
  refine ⟨⟨hne, fun c hc => (hchar c hc).1⟩, fun heq => ?_⟩
  exact (hchar '#' (List.mem_of_mem_head? heq)).2 rfl

set_option maxRecDepth 100000 in
theorem tableKeys_names : ∀ kd ∈ tableKeys, ∀ token ∈ kd.2.aliases, token ≠ [] ∧
    token.all fun c => c.isAlphanum || c == '.' := by
  decide +kernel

set_option maxRecDepth 100000 in
def subsurfaceDefinition : TableDefinition where
  definition := tableKeys
  aliases_nodup := by decide +kernel
  keys_nodup := by decide +kernel
  key_str := ⟨["key".toList, "name".toList, "Name".toList, "Key".toList], by rfl⟩
  aliases_ne_nil := by decide +kernel
  aliases_cell kd hkd token htoken :=
    isCell_of_name (tableKeys_names kd hkd token htoken).1 (tableKeys_names kd hkd token htoken).2
  addon_local := by decide +kernel

/-- A comment whose sign stands before a comma, above a table without rows. -/
theorem comma_loadersAgree : LoadersAgree tableKeys NumberText.parseNumber (newBuilder ℚ)
    [.extra ['#', ' ', ',', 'a'], .row ["key".toList]] := by
  have hextra : IsExtra ['#', ' ', ',', 'a'] := ⟨Or.inr rfl, by simp [isBreak]⟩
  have halone : StandsAlone ['#', ' ', ',', 'a'] := ⟨by decide, by decide⟩
  have hkey : "key".toList ∈ keyAlias subsurfaceDefinition.definition := by decide +kernel
  exact (loadersAgree_iff subsurfaceDefinition NumberText.parseNumber [['#', ' ', ',', 'a']]
    (List.forall_mem_singleton.mpr hextra)).mpr (List.forall_mem_singleton.mpr halone) _ _
      (isTable_header subsurfaceDefinition (List.mem_singleton_self _) hkey)

end ParFlow.TableToProperties
