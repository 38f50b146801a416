import ParFlow.Geom.MaskDefs
import ParFlow.Geom.MaskFiles

/-! `ReadASCMask` reads the values of an ASC file in any layout. The reader in Python agrees with it only on grids of one
value a line: it takes a line of two values for a line of the header, and gives up at any other line of the header that is
not two words. -/

namespace ParFlow.Mask

open IntLoop TextScan TextStream TextTable WordStream ByteFile Pfb

variable {np : LoadTxt} {matrix : ℤ → ℤ → ℤ} {height width : ℕ} {settings : AscSettings} {noData line : List Char}
  {lines header body : List (List Char)} {rows : List (List ℤ)} {v : Databox ℚ}

/-! ## Lines -/

theorem plainText_joinLines (h : ∀ line ∈ lines, IsPlainLine line) : PlainText (joinLines lines) := by
  unfold joinLines
  induction lines with
  | nil => exact fun c hc => absurd hc List.not_mem_nil
  | cons line lines ih =>
    obtain ⟨hline, hlines⟩ := List.forall_mem_cons.mp h
    have hplain : PlainText line := by
      intro c hc
      refine ⟨(hline c hc).1, fun hspace => ?_⟩
      have hblank := (hline c hc).2 hspace
      rw [isBlank, decide_eq_true_iff] at hblank
      exact hblank.imp_right Or.inl
    cases lines with
    | nil =>
      rw [List.intercalate_singleton]
      exact hplain
    | cons line' lines =>
      rw [List.intercalate_cons_cons]
      intro c hc
      rcases List.mem_append.mp hc with hc | hc
      · rcases List.mem_append.mp hc with hc | hc
        · exact hplain c hc
        · rw [List.mem_singleton.mp hc]
          decide
      · exact ih hlines c hc

theorem split_joinLines (lines : List (List Char)) : PyText.split (joinLines lines) = lines.flatMap PyText.split :=
  tokens_intercalate rfl lines

theorem IsPlainLine.not_isBreak (h : IsPlainLine line) : ∀ c ∈ line, PyText.isBreak c = false := by
  intro c hc
  cases hbreak : PyText.isBreak c with
  | false => rfl
  | true =>
    have hblank := (h c hc).2 (PyText.isSpace_of_isBreak hbreak)
    rw [PyText.isBreak, decide_eq_true_iff] at hbreak
    rcases hbreak with rfl | rfl
    all_goals exact absurd hblank (by decide)

theorem fileLines_joinLines (h : ∀ line ∈ lines, IsPlainLine line) (hne : lines ≠ []) :
    PyText.fileLines (joinLines lines) = if lines.getLast? = some [] then lines.dropLast else lines := by
  have hreturn : PyText.universalNewlines (joinLines lines) = joinLines lines :=
    PyText.universalNewlines_of_notMem fun hmem => absurd ((plainText_joinLines h _ hmem).2 rfl) (by decide)
  have hsplit : TextTable.lines (joinLines lines) = lines := by
    refine List.splitOn_intercalate '\n' ?_ hne
    intro line hline hmem
    exact absurd ((h line hline).not_isBreak _ hmem) (by decide)
  unfold PyText.fileLines
  dsimp only
  rw [hreturn, hsplit]

/-! ## Reading words -/

/-- The values of a layout, in the order of the file. -/
theorem readsWords_rows (hv : HasSizes height width v) :
    ReadsWords ((upto 0 height).foldlM (fun v j => (upto 0 width).foldlM (readASCValue j) v) v)
      ((fileValues matrix height width).map intText)
      ((fileIndices height width).foldl (fill (matrixBox matrix height width)) v) := by
  let d := matrixBox matrix height width
  have hvalue : ∀ j i : ℤ, (0 ≤ i ∧ i < width) → ∀ v, HasSizes height width v →
      ReadsWords (readASCValue j v i) [intText (matrix (height - j - 1) i)] (fill d v (flippedIndex height width j i)) := by
    intro j i hi v hv
    rw [fill_flippedIndex hi hv]
    unfold readASCValue
    exact (readsWords_takeDouble (NumberText.scans_intText _)).map _
  have hrow : ∀ j : ℤ, ∀ v, HasSizes height width v →
      ReadsWords ((upto 0 width).foldlM (readASCValue j) v)
        ((upto 0 width).flatMap fun i => [intText (matrix (height - j - 1) i)])
        (((upto 0 width).map fun i => flippedIndex height width j i).foldl (fill d) v) := by
    intro j v hv
    rw [List.foldl_map]
    apply ReadsWords.foldlM (HasSizes height width)
    · exact fun i hi v hv => hvalue j i (mem_upto.mp hi) v hv
    · exact fun i _ v hv => hv.foldl_fill d [flippedIndex height width j i]
    · exact hv
  have hwords : (fileValues matrix height width).map intText =
      (upto 0 height).flatMap fun j => (upto 0 width).flatMap fun i => [intText (matrix (height - j - 1) i)] := by
    rw [fileValues, List.map_flatMap]
    refine List.flatMap_congr fun j _ => ?_
    rw [List.map_map, ← List.map_eq_flatMap]
    rfl
  unfold fileIndices
  rw [hwords, List.foldl_flatMap]
  apply ReadsWords.foldlM (HasSizes height width)
  · exact fun j _ v hv => hrow j v hv
  · exact fun j _ v hv => hv.foldl_fill d _
  · exact hv

/-- The values of the matrix, whatever lines they are on. -/
theorem readASCMask_layout (h : IsAscFile matrix height width settings noData header body) (defaultValue : ℚ) :
    ∃ v rest, (readASCMask defaultValue).run (utf8 (joinLines (header ++ body))) = some (v, rest) ∧
      HasSizes height width v ∧
        ∀ j i : ℤ, (0 ≤ j ∧ j < height) → (0 ≤ i ∧ i < width) → v.coeffs (v.coeff i j 0) = matrix j i := by
  let start : Databox ℚ := ⟨width, height, 1, settings.xllcorner.value, settings.yllcorner.value, 0,
    settings.cellsize.value, settings.cellsize.value, settings.cellsize.value, fun _ => defaultValue⟩
  have hstart : HasSizes height width start := ⟨rfl, rfl⟩
  have hwords : PyText.split (joinLines (header ++ body)) =
      ["ncols".toList] ++ ([intText width] ++ (["nrows".toList] ++ ([intText height] ++ (["xllcorner".toList] ++
        ([settings.xllcorner.text] ++ (["yllcorner".toList] ++ ([settings.yllcorner.text] ++ (["cellsize".toList] ++
          ([settings.cellsize.text] ++ (["NODATA_value".toList] ++ ([noData] ++
            (fileValues matrix height width).map intText))))))))))) := by
    rw [split_joinLines, List.flatMap_append, h.body, List.flatMap_def, h.header]
    rfl
  have hread : ReadsWords (readASCMask defaultValue) (PyText.split (joinLines (header ++ body)))
      ((fileIndices height width).foldl (fill (matrixBox matrix height width)) start) := by
    rw [hwords]
    unfold readASCMask
    apply (readsWords_takeWord _).bind
    apply ((intText_natCast width).symm ▸ readsWords_takeInt width).bind
    apply (readsWords_takeWord _).bind
    apply ((intText_natCast height).symm ▸ readsWords_takeInt height).bind
    apply (readsWords_takeWord _).bind
    apply (readsWords_takeDouble settings.xllcorner.scans).bind
    apply (readsWords_takeWord _).bind
    apply (readsWords_takeDouble settings.yllcorner.scans).bind
    apply (readsWords_takeWord _).bind
    apply (readsWords_takeDouble settings.cellsize.scans).bind
    apply (readsWords_takeWord _).bind
    apply (readsWords_takeWord _).bind
    exact readsWords_rows hstart
  obtain ⟨after, hrun, -, -⟩ := hread _ [] (plainText_joinLines h.plain) (List.append_nil _).symm
  exact ⟨_, _, hrun, hstart.foldl_fill _ _, fun j i hj hi => coeffs_fileIndices hstart hj hi⟩

/-! ## The loop over the header -/

theorem readInt_eq_none (h : ∀ word, PyText.split line ≠ [word]) : PyText.readInt line = none := by
  cases hread : PyText.readInt line with
  | none => rfl
  | some n => exact absurd (PyText.split_of_readInt hread) (h _)

/-- A line of two words, whose first one is the name of a size or of anything else. -/
theorem scanHeader_pair {key value : List Char} (hline : PyText.split line = [key, value]) (ncols nrows : ℤ)
    (lines : List (List Char)) : scanHeader ncols nrows (line :: lines) =
      (if key = "ncols".toList then PyText.readInt value else some ncols).bind fun ncols =>
        (if key = "nrows".toList then PyText.readInt value else some nrows).bind fun nrows =>
          scanHeader ncols nrows lines := by
  have hnone : PyText.readInt line = none := by
    apply readInt_eq_none
    intro word heq
    rw [hline] at heq
    cases heq
  rw [scanHeader, hnone, hline]

theorem scanHeader_other {key value : List Char} (hline : PyText.split line = [key, value]) (hncols : key ≠ "ncols".toList)
    (hnrows : key ≠ "nrows".toList) (ncols nrows : ℤ) (lines : List (List Char)) :
    scanHeader ncols nrows (line :: lines) = scanHeader ncols nrows lines := by
  rw [scanHeader_pair hline, if_neg hncols, if_neg hnrows, Option.bind_some, Option.bind_some]

theorem split_intText (n : ℤ) : PyText.split (intText n) = [intText n] := by
  refine tokens_singleton ?_ ?_
  · exact List.append_ne_nil_of_right_ne_nil _ Nat.toDigits_ne_nil
  · intro c hc
    rcases List.mem_append.mp hc with hc | hc
    · split_ifs at hc
      · rw [List.mem_singleton.mp hc]
        decide
      · exact absurd hc List.not_mem_nil
    · exact PyText.not_isSpace_of_isDigit (NumberText.allDigits_decimal _ c hc)

theorem scanHeader_header (h : IsAscFile matrix height width settings noData header body) (lines : List (List Char)) :
    scanHeader (-1) (-1) (header ++ lines) = scanHeader width height lines := by
  have hheader := h.header
  simp only [List.map_eq_cons_iff, List.map_eq_nil_iff] at hheader
  obtain ⟨l₁, _, rfl, h₁, l₂, _, rfl, h₂, l₃, _, rfl, h₃, l₄, _, rfl, h₄, l₅, _, rfl, h₅, l₆, _, rfl, h₆, rfl⟩ := hheader
  have hncols : PyText.readInt (intText width) = some (width : ℤ) := PyText.readInt_intText (split_intText width)
  have hnrows : PyText.readInt (intText height) = some (height : ℤ) := PyText.readInt_intText (split_intText height)
  simp only [List.cons_append, List.nil_append]
  rw [scanHeader_pair h₁, if_pos rfl, if_neg (by decide), hncols, Option.bind_some, Option.bind_some,
    scanHeader_pair h₂, if_neg (by decide), if_pos rfl, hnrows, Option.bind_some, Option.bind_some,
    scanHeader_other h₃ (by decide) (by decide), scanHeader_other h₄ (by decide) (by decide),
    scanHeader_other h₅ (by decide) (by decide), scanHeader_other h₆ (by decide) (by decide)]

theorem intText_ne {name : List Char} (h : name.head? = some 'n') (v : ℤ) : intText v ≠ name := by
  rintro rfl
  have hmem : 'n' ∈ intText v := List.mem_of_mem_head? h
  rcases List.mem_append.mp hmem with hmem | hmem
  · split_ifs at hmem
    · exact absurd (List.mem_singleton.mp hmem) (by decide)
    · exact absurd hmem List.not_mem_nil
  · exact absurd (NumberText.allDigits_decimal _ _ hmem) (by decide)

/-- Lines of two values are skipped, and the first line of one value ends the header. -/
theorem scanHeader_values {ncols nrows : ℤ} {found : AscHeader}
    (hrows : lines.map PyText.split = rows.map (List.map intText)) (hscan : scanHeader ncols nrows lines = some found) :
    found.ncols = ncols ∧ found.nrows = nrows ∧
      ∃ skipped kept, rows = skipped ++ kept ∧ (∀ row ∈ skipped, row.length = 2) ∧ (∃ v, kept.head? = some [v]) ∧
        found.lines.map PyText.split = kept.map (List.map intText) := by
  induction lines generalizing rows with
  | nil => cases hscan
  | cons line lines ih =>
    obtain ⟨row, rows, rfl⟩ : ∃ row rows', rows = row :: rows' := by
      cases rows with
      | nil => cases hrows
      | cons row rows => exact ⟨row, rows, rfl⟩
    obtain ⟨hline, hlines⟩ := List.cons_eq_cons.mp hrows
    match row, hline with
    | [], hline =>
      rw [scanHeader, readInt_eq_none (by rw [hline]; exact fun _ h => by cases h), hline] at hscan
      cases hscan
    | [v], hline =>
      rw [scanHeader, PyText.readInt_intText hline] at hscan
      cases hscan
      exact ⟨rfl, rfl, [], [v] :: rows, rfl, fun row hrow => absurd hrow List.not_mem_nil, ⟨v, rfl⟩, hrows⟩
    | [a, b], hline =>
      rw [scanHeader_other hline (intText_ne rfl a) (intText_ne rfl a)] at hscan
      obtain ⟨hncols, hnrows, skipped, kept, rfl, htwo, hone, hkept⟩ := ih hlines hscan
      exact ⟨hncols, hnrows, [a, b] :: skipped, kept, rfl, List.forall_mem_cons.mpr ⟨rfl, htwo⟩, hone, hkept⟩
    | a :: b :: c :: row, hline =>
      rw [scanHeader, readInt_eq_none (by rw [hline]; exact fun _ h => by cases h), hline] at hscan
      cases hscan

/-! ## The matrix -/

theorem exists_rows {values : List ℤ} (h : lines.flatMap PyText.split = values.map intText) :
    ∃ rows : List (List ℤ), lines.map PyText.split = rows.map (List.map intText) ∧ rows.flatten = values := by
  induction lines generalizing values with
  | nil => exact ⟨[], rfl, (List.map_eq_nil_iff.mp h.symm).symm⟩
  | cons line lines ih =>
    obtain ⟨row, values, rfl, hline, hlines⟩ := List.map_eq_append_iff.mp (List.flatMap_cons ▸ h.symm)
    obtain ⟨rows, hrows, rfl⟩ := ih hlines.symm
    exact ⟨row :: rows, by rw [List.map_cons, List.map_cons, hline, hrows], rfl⟩

/-- The lines of a file, without an empty one at its end. -/
theorem exists_fileLines (h : IsAscFile matrix height width settings noData header body) :
    ∃ body', PyText.fileLines (joinLines (header ++ body)) = header ++ body' ∧ (body = body' ∨ body = body' ++ [[]]) := by
  have hne : header ≠ [] := by
    rintro rfl
    cases h.header
  rw [fileLines_joinLines h.plain (List.append_ne_nil_of_left_ne_nil hne _)]
  split_ifs with hlast
  · rcases List.eq_nil_or_concat' body with rfl | ⟨body', last, rfl⟩
    · have hwords : PyText.split [] ∈ header.map PyText.split := by
        rw [List.append_nil] at hlast
        exact List.mem_map_of_mem (List.mem_of_getLast? hlast)
      rw [h.header] at hwords
      exact absurd hwords (by simp [PyText.split, tokens_nil])
    · rw [← List.append_assoc, List.getLast?_concat, Option.some_inj] at hlast
      refine ⟨body', ?_, Or.inr (by rw [hlast])⟩
      rw [← List.append_assoc, List.dropLast_concat]
  · exact ⟨body, rfl, Or.inl rfl⟩

theorem oneValueLines_iff (hrows : lines.map PyText.split = rows.map (List.map intText)) :
    OneValueLines lines ↔ (∃ v, rows.head? = some [v]) ∧ ∀ row ∈ rows, row.length ≤ 1 := by
  have hcounts : lines.map (fun line => (PyText.split line).length) = rows.map List.length := by
    have h := congrArg (List.map List.length) hrows
    rw [List.map_map, List.map_map] at h
    refine h.trans (List.map_congr_left fun row _ => ?_)
    exact List.length_map _
  have hfirst : (lines.head?.any fun line => (PyText.split line).length = 1) ↔ ∃ v, rows.head? = some [v] := by
    cases lines with
    | nil =>
      rw [List.map_nil, eq_comm, List.map_eq_nil_iff] at hcounts
      rw [hcounts]
      exact iff_of_false Bool.false_ne_true fun ⟨v, hv⟩ => by cases hv
    | cons line lines =>
      cases rows with
      | nil => cases hcounts
      | cons row rows =>
        obtain ⟨hline, -⟩ := List.cons_eq_cons.mp hcounts
        dsimp only at hline
        rw [List.head?_cons, Option.any_some, decide_eq_true_iff, hline, List.length_eq_one_iff, List.head?_cons]
        exact exists_congr fun v => Option.some_inj.symm
  have hall : (∀ line ∈ lines, (PyText.split line).length ≤ 1) ↔ ∀ row ∈ rows, row.length ≤ 1 := by
    rw [← List.forall_mem_map (P := (· ≤ 1)), hcounts, List.forall_mem_map]
  rw [← hfirst, ← hall]
  exact ⟨fun h => ⟨h.first, h.all⟩, fun h => ⟨h.1, h.2⟩⟩

theorem oneValueLines_append_nil : OneValueLines (lines ++ [[]]) ↔ OneValueLines lines := by
  have hall : (∀ line ∈ lines ++ [[]], (PyText.split line).length ≤ 1) ↔ ∀ line ∈ lines, (PyText.split line).length ≤ 1 := by
    rw [List.forall_mem_append, List.forall_mem_singleton]
    exact and_iff_left (Nat.zero_le 1)
  have hfirst : ((lines ++ [[]]).head?.any fun line => (PyText.split line).length = 1) =
      lines.head?.any fun line => (PyText.split line).length = 1 := by
    cases lines <;> rfl
  constructor
  · exact fun h => ⟨hfirst ▸ h.first, hall.mp h.all⟩
  · exact fun h => ⟨hfirst.symm ▸ h.first, hall.mpr h.all⟩

theorem fileValues_eq (matrix : ℤ → ℤ → ℤ) (height width : ℕ) : fileValues matrix height width =
    (upto 0 (height * width)).map fun k => matrix (height - k / width - 1) (k % width) := by
  rw [← flatMap_rows (Int.natCast_nonneg width), List.map_flatMap, fileValues]
  refine List.flatMap_congr fun j _ => ?_
  have hrow : upto (j * width) (j * width + width) = (upto 0 width).map (· + j * width) := by
    rw [← upto_add, zero_add, add_comm]
  rw [hrow, List.map_map]
  refine List.map_congr_left fun i hi => ?_
  rw [mem_upto] at hi
  have hdiv : (i + j * width) / width = j := by
    rw [Int.add_mul_ediv_right _ _ (by omega), Int.ediv_eq_zero_of_lt hi.1 hi.2, zero_add]
  have hmod : (i + j * width) % width = i := by
    rw [Int.add_mul_emod_self_right, Int.emod_eq_of_lt hi.1 hi.2]
  rw [Function.comp_apply, hdiv, hmod]

theorem length_fileValues (matrix : ℤ → ℤ → ℤ) (height width : ℕ) :
    (fileValues matrix height width).length = height * width := by
  rw [fileValues_eq, List.length_map, length_upto, sub_zero, ← Nat.cast_mul, Int.toNat_natCast]

theorem shapeSizes_natCast (size height width : ℕ) :
    shapeSizes size height width = if height * width = size then some (height, width) else none := by
  rw [shapeSizes, if_pos ⟨Int.natCast_nonneg height, Int.natCast_nonneg width⟩]
  norm_cast

/-- The place of an entry in the rows of a file. -/
theorem place_lt {j i : ℤ} (hj : 0 ≤ j ∧ j < height) (hi : 0 ≤ i ∧ i < width) :
    0 ≤ (height - 1 - j) * width + i ∧ (height - 1 - j) * width + i < height * width := by
  have hrow : 0 ≤ (height - 1 - j) * (width : ℤ) := mul_nonneg (by omega) (by omega)
  have hlast : (height - 1 - j) * (width : ℤ) ≤ (height - 1) * width := mul_le_mul_of_nonneg_right (by omega) (by omega)
  rw [sub_one_mul] at hlast
  exact ⟨by omega, by omega⟩

theorem getD_fileValues {j i : ℤ} (hj : 0 ≤ j ∧ j < height) (hi : 0 ≤ i ∧ i < width) :
    (fileValues matrix height width).getD ((height - 1 - j) * width + i).toNat 0 = matrix j i := by
  obtain ⟨hlow, hhigh⟩ := place_lt hj hi
  have hplace : ((height - 1 - j) * width + i).toNat < ((height : ℤ) * width - 0).toNat := by omega
  have hdiv : ((height - 1 - j) * width + i) / width = height - 1 - j := by
    rw [add_comm, Int.add_mul_ediv_right _ _ (by omega), Int.ediv_eq_zero_of_lt hi.1 hi.2, zero_add]
  have hmod : ((height - 1 - j) * width + i) % width = i := by
    rw [add_comm, Int.add_mul_emod_self_right, Int.emod_eq_of_lt hi.1 hi.2]
  rw [fileValues_eq, upto, List.map_map, List.getD_eq_getElem?_getD, List.getElem?_map, List.getElem?_range hplace,
    Option.map_some, Option.getD_some, Function.comp_apply, zero_add, Int.toNat_of_nonneg hlow, hdiv, hmod]
  congr 1
  ring

/-- The rows behind the header, whether or not the text ends with a newline. -/
theorem exists_body (h : IsAscFile matrix height width settings noData header body) :
    ∃ (body' : List (List Char)) (rows : List (List ℤ)), PyText.fileLines (joinLines (header ++ body)) = header ++ body' ∧
      (OneValueLines body ↔ OneValueLines body') ∧ body'.map PyText.split = rows.map (List.map intText) ∧
        rows.flatten = fileValues matrix height width := by
  obtain ⟨body', hlines, rfl | rfl⟩ := exists_fileLines h
  · obtain ⟨rows, hrows, hvalues⟩ := exists_rows h.body
    exact ⟨body, rows, hlines, Iff.rfl, hrows, hvalues⟩
  · have hwords := h.body
    rw [List.flatMap_append] at hwords
    obtain ⟨rows, hrows, hvalues⟩ := exists_rows ((List.append_nil _).symm.trans hwords)
    exact ⟨body', rows, hlines, oneValueLines_append_nil, hrows, hvalues⟩

/-- What is loaded, if anything is. -/
theorem of_load (h : IsAscFile matrix height width settings noData header body) {m : PatchMatrix}
    (hload : loadPatchMatrixFromAscFile np (joinLines (header ++ body)) = some m) :
    m.rows = height ∧ m.cols = width ∧ OneValueLines body ∧
      ∀ j i : ℤ, (0 ≤ j ∧ j < height) → (0 ≤ i ∧ i < width) → IsInt16 (m.entry j i) := by
  obtain ⟨body', rows, hlines, hone, hrows, hvalues⟩ := exists_body h
  rw [loadPatchMatrixFromAscFile, hlines, scanHeader_header h] at hload
  obtain ⟨found, hscan, hload⟩ := Option.bind_eq_some_iff.mp hload
  obtain ⟨data, hdata, hload⟩ := Option.bind_eq_some_iff.mp hload
  obtain ⟨hncols, hnrows, skipped, kept, rfl, htwo, ⟨v, hhead⟩, hkept⟩ := scanHeader_values hrows hscan
  obtain ⟨⟨n, hcolumns⟩, hlength, hint⟩ := np.loaded _ _ _ hkept hdata
  rw [hncols, hnrows, shapeSizes_natCast] at hload
  obtain ⟨⟨r, c⟩, hshape, hm⟩ := Option.bind_eq_some_iff.mp hload
  split_ifs at hshape with hsize
  cases hshape
  cases hm
  -- Every skipped line would be missing from the matrix.
  have htotal : (skipped.flatten ++ kept.flatten).length = height * width := by
    rw [← List.flatten_append, hvalues, length_fileValues]
  have hnone : skipped = [] := by
    rw [List.length_append, hsize, hlength, Nat.add_eq_right, List.length_eq_zero_iff, List.flatten_eq_nil_iff] at htotal
    rw [List.eq_nil_iff_forall_not_mem]
    intro row hrow
    have hlen := htwo row hrow
    rw [htotal row hrow] at hlen
    cases hlen
  have hall : ∀ row ∈ kept, row.length ≤ 1 := by
    have hn : n = 1 := by
      rcases hcolumns [v] (List.mem_of_mem_head? hhead) with hnil | hlen
      · cases hnil
      · exact hlen.symm
    intro row hrow
    rcases hcolumns row hrow with rfl | hlen
    · exact Nat.zero_le 1
    · exact (hlen.trans hn).le
  refine ⟨rfl, rfl, hone.mpr ((oneValueLines_iff hrows).mpr ?_), fun j i hj hi => ?_⟩
  · rw [hnone]
    exact ⟨⟨v, hhead⟩, hall⟩
  · obtain ⟨hlow, hhigh⟩ := place_lt hj hi
    have hplace : ((height - 1 - j) * width + i).toNat < data.length := by
      rw [← hsize]
      zify
      rwa [Int.toNat_of_nonneg hlow]
    dsimp only
    rw [List.getD_eq_getElem _ _ hplace]
    exact hint _ (List.getElem_mem hplace)

theorem loadsMatrix_of_oneValueLines (np : LoadTxt) (h : IsAscFile matrix height width settings noData header body)
    (hone : OneValueLines body) (hint : HasInt16 matrix height width) :
    LoadsMatrix np (joinLines (header ++ body)) matrix height width := by
  obtain ⟨body', rows, hlines, hlinesOne, hrows, hvalues⟩ := exists_body h
  obtain ⟨⟨v, hhead⟩, hall⟩ := (oneValueLines_iff hrows).mp (hlinesOne.mp hone)
  have hscan : scanHeader width height body' = some ⟨width, height, body'⟩ := by
    cases body' with
    | nil =>
      rw [List.map_nil, eq_comm, List.map_eq_nil_iff] at hrows
      rw [hrows] at hhead
      cases hhead
    | cons line lines =>
      cases rows with
      | nil => cases hhead
      | cons row rows =>
        cases hhead
        rw [scanHeader, PyText.readInt_intText (List.cons_eq_cons.mp hrows).1]
  have hvalue : ∀ value ∈ fileValues matrix height width, IsInt16 value := by
    intro value hmem
    obtain ⟨j, hj, hmem⟩ := List.mem_flatMap.mp hmem
    obtain ⟨i, hi, rfl⟩ := List.mem_map.mp hmem
    rw [mem_upto] at hj hi
    exact hint _ i (by omega) hi
  have hdata : np.loadtxt body' = some (fileValues matrix height width) := by
    rw [← hvalues]
    refine np.loads _ rows 1 hrows (fun row hrow => ?_) fun row hrow value hmem => ?_
    · rcases Nat.le_one_iff_eq_zero_or_eq_one.mp (hall row hrow) with hzero | hone
      · exact Or.inl (List.eq_nil_of_length_eq_zero hzero)
      · exact Or.inr hone
    · exact hvalue value (by rw [← hvalues]; exact List.mem_flatten_of_mem hrow hmem)
  refine ⟨⟨height, width, fun j i => (fileValues matrix height width).getD ((height - 1 - j) * width + i).toNat 0⟩, ?_, rfl,
    rfl, fun j i hj hi => getD_fileValues hj hi⟩
  rw [loadPatchMatrixFromAscFile, hlines, scanHeader_header h, hscan, Option.bind_eq_bind, Option.bind_some, hdata,
    Option.bind_eq_bind, Option.bind_some, length_fileValues, shapeSizes_natCast, if_pos rfl]
  rfl

theorem readersAgree_layout_iff (h : IsAscFile matrix height width settings noData header body) (defaultValue : ℚ) :
    ReadersAgree np defaultValue (joinLines (header ++ body)) ↔ OneValueLines body ∧ HasInt16 matrix height width := by
  obtain ⟨v, rest, hread, hsizes, hvalues⟩ := readASCMask_layout h defaultValue
  constructor
  · rintro ⟨m, v', rest', hload, hread', -, -, hagree⟩
    rw [hread] at hread'
    cases hread'
    obtain ⟨hrows, hcols, hone, hint⟩ := of_load h hload
    refine ⟨hone, fun j i hj hi => ?_⟩
    have hentry : (matrix j i : ℚ) = m.entry j i :=
      (hvalues j i hj hi).symm.trans (hagree j i (hrows ▸ hj) (hcols ▸ hi))
    rw [Int.cast_inj.mp hentry]
    exact hint j i hj hi
  · rintro ⟨hone, hint⟩
    obtain ⟨m, hload, hrows, hcols, hentries⟩ := loadsMatrix_of_oneValueLines np h hone hint
    refine ⟨m, v, rest, hload, hread, hsizes.1.trans (by rw [hcols]), hsizes.2.trans (by rw [hrows]), fun j i hj hi => ?_⟩
    rw [hrows] at hj
    rw [hcols] at hi
    rw [hvalues j i hj hi, hentries j i hj hi]

/-! ## The file that is written -/

def IsPlainWord (text : List Char) : Prop := text ≠ [] ∧ ∀ c ∈ text, c.toNat ≤ 127 ∧ PyText.isSpace c = false

theorem isPlainWord_intText (n : ℤ) : IsPlainWord (intText n) := by
  have hmem : intText n ∈ PyText.split (intText n) := by
    rw [split_intText]
    exact List.mem_cons_self
  have hsolid := (PyText.mem_split hmem).2
  refine ⟨List.append_ne_nil_of_right_ne_nil _ Nat.toDigits_ne_nil, fun c hc => ⟨?_, hsolid c hc⟩⟩
  rcases List.mem_append.mp hc with hc | hc
  · split_ifs at hc
    · rw [List.mem_singleton.mp hc]
      decide
    · exact absurd hc List.not_mem_nil
  · have hdigit := NumberText.allDigits_decimal _ c hc
    have hrange : 48 ≤ c.toNat ∧ c.toNat ≤ 57 := by
      simpa [Char.isDigit, UInt32.le_iff_toNat_le] using hdigit
    omega

/-- A line of the header, with its name in a column. -/
def headerLine (name text : List Char) : List Char := padRight 15 name ++ text

theorem split_headerLine {name text : List Char} (hname : IsPlainWord name) (hlength : name.length < 15)
    (htext : IsPlainWord text) : PyText.split (headerLine name text) = [name, text] := by
  rw [headerLine, PyText.split_padRight_append hname.1 (fun c hc => (hname.2 c hc).2) hlength]
  exact congrArg _ (tokens_singleton htext.1 fun c hc => (htext.2 c hc).2)

theorem IsPlainWord.isPlainLine (h : IsPlainWord line) : IsPlainLine line := by
  intro c hc
  refine ⟨(h.2 c hc).1, fun hspace => ?_⟩
  rw [(h.2 c hc).2] at hspace
  cases hspace

theorem isPlainLine_headerLine {name text : List Char} (hname : IsPlainWord name) (htext : IsPlainWord text) :
    IsPlainLine (headerLine name text) := by
  intro c hc
  rcases List.mem_append.mp hc with hc | hc
  · rcases List.mem_append.mp hc with hc | hc
    · exact hname.isPlainLine c hc
    · rw [List.eq_of_mem_replicate hc]
      decide
  · exact htext.isPlainLine c hc

/-- The lines of the header, as names and texts. -/
def headerPairs (height width : ℕ) (settings : AscSettings) : List (List Char × List Char) :=
  [("ncols".toList, intText width), ("nrows".toList, intText height), ("xllcorner".toList, settings.xllcorner.text),
    ("yllcorner".toList, settings.yllcorner.text), ("cellsize".toList, settings.cellsize.text),
    ("NODATA_value".toList, intText 0)]

theorem headerPairs_plain (height width : ℕ) (hsettings : settings.IsPlain) :
    ∀ p ∈ headerPairs height width settings, (IsPlainWord p.1 ∧ p.1.length < 15) ∧ IsPlainWord p.2 := by
  have hnames : ∀ name ∈ ["ncols".toList, "nrows".toList, "xllcorner".toList, "yllcorner".toList, "cellsize".toList,
      "NODATA_value".toList], IsPlainWord name ∧ name.length < 15 := by
    simp [IsPlainWord, PyText.isSpace]
  unfold AscSettings.IsPlain at hsettings
  simp only [List.forall_mem_cons] at hsettings hnames
  obtain ⟨hx, hy, hcell, -⟩ := hsettings
  obtain ⟨h₁, h₂, h₃, h₄, h₅, h₆, -⟩ := hnames
  simp only [headerPairs, List.forall_mem_cons]
  exact ⟨⟨h₁, isPlainWord_intText _⟩, ⟨h₂, isPlainWord_intText _⟩, ⟨h₃, hx⟩, ⟨h₄, hy⟩, ⟨h₅, hcell⟩,
    ⟨h₆, isPlainWord_intText _⟩, fun _ h => absurd h List.not_mem_nil⟩

def headerLines (height width : ℕ) (settings : AscSettings) : List (List Char) :=
  (headerPairs height width settings).map fun p => headerLine p.1 p.2

theorem joinLines_newline (lines : List (List Char)) : joinLines (lines ++ [[]]) = lines.flatMap (· ++ ['\n']) := by
  unfold joinLines
  induction lines with
  | nil => rfl
  | cons line lines ih =>
    have hne : lines ++ [[]] ≠ [] := List.append_ne_nil_of_right_ne_nil lines (List.cons_ne_nil [] [])
    obtain ⟨next, rest, hnext⟩ := List.exists_cons_of_ne_nil hne
    rw [List.cons_append, List.flatMap_cons, ← ih, hnext, List.intercalate_cons_cons]

/-- The names of the header as they are written. -/
theorem padRight_names : "ncols          ".toList = padRight 15 "ncols".toList ∧
    "nrows          ".toList = padRight 15 "nrows".toList ∧ "xllcorner      ".toList = padRight 15 "xllcorner".toList ∧
      "yllcorner      ".toList = padRight 15 "yllcorner".toList ∧ "cellsize       ".toList = padRight 15 "cellsize".toList ∧
        "NODATA_value   ".toList = padRight 15 "NODATA_value".toList := by
  decide +kernel

theorem headerLines_eq (height width : ℕ) (settings : AscSettings) : headerLines height width settings =
    ["ncols          ".toList ++ intText width, "nrows          ".toList ++ intText height,
      "xllcorner      ".toList ++ settings.xllcorner.text, "yllcorner      ".toList ++ settings.yllcorner.text,
      "cellsize       ".toList ++ settings.cellsize.text, "NODATA_value   ".toList ++ intText 0] := by
  obtain ⟨hncols, hnrows, hxll, hyll, hcell, hnodata⟩ := padRight_names
  have hline : ∀ {name column text : List Char}, column = padRight 15 name → headerLine name text = column ++ text := by
    rintro name _ text rfl
    rfl
  exact congrArg₂ List.cons (hline hncols) (congrArg₂ List.cons (hline hnrows) (congrArg₂ List.cons (hline hxll)
    (congrArg₂ List.cons (hline hyll) (congrArg₂ List.cons (hline hcell) (congrArg₂ List.cons (hline hnodata) rfl)))))

theorem writePatchMatrixAsAsc_eq (matrix : ℤ → ℤ → ℤ) (height width : ℕ) (settings : AscSettings) :
    writePatchMatrixAsAsc matrix height width settings =
      joinLines (headerLines height width settings ++ ((fileValues matrix height width).map intText ++ [[]])) := by
  have hvalues : ((fileValues matrix height width).map intText).flatMap (· ++ ['\n']) = (upto 0 height).flatMap fun j =>
      (upto 0 width).flatMap fun i => intText (matrix (height - j - 1) i) ++ ['\n'] := by
    rw [fileValues, List.map_flatMap, List.flatMap_assoc]
    refine List.flatMap_congr fun j _ => ?_
    rw [List.map_map, List.flatMap_map]
    rfl
  rw [← List.append_assoc, joinLines_newline, List.flatMap_append, hvalues, headerLines_eq]
  unfold writePatchMatrixAsAsc
  simp only [List.flatMap_cons, List.flatMap_nil, List.append_assoc, List.nil_append]

/-- Any layout behind the header that is written. -/
theorem isAscFile_headerLines (hsettings : settings.IsPlain) (hplain : ∀ line ∈ body, IsPlainLine line)
    (hbody : body.flatMap PyText.split = (fileValues matrix height width).map intText) :
    IsAscFile matrix height width settings (intText 0) (headerLines height width settings) body := by
  have hpairs := headerPairs_plain height width hsettings
  refine ⟨?_, ?_, hbody⟩
  · rw [List.forall_mem_append, headerLines, List.forall_mem_map]
    exact ⟨fun p hp => isPlainLine_headerLine (hpairs p hp).1.1 (hpairs p hp).2, hplain⟩
  · have hsplit : (headerLines height width settings).map PyText.split =
        (headerPairs height width settings).map fun p => [p.1, p.2] := by
      rw [headerLines, List.map_map]
      exact List.map_congr_left fun p hp => split_headerLine (hpairs p hp).1.1 (hpairs p hp).1.2 (hpairs p hp).2
    exact hsplit

theorem isAscFile_written (matrix : ℤ → ℤ → ℤ) (height width : ℕ) (hsettings : settings.IsPlain) :
    IsAscFile matrix height width settings (intText 0) (headerLines height width settings)
      ((fileValues matrix height width).map intText ++ [[]]) := by
  apply isAscFile_headerLines hsettings
  · rw [List.forall_mem_append, List.forall_mem_map, List.forall_mem_singleton]
    exact ⟨fun n _ => (isPlainWord_intText n).isPlainLine, fun c hc => absurd hc List.not_mem_nil⟩
  · rw [List.flatMap_append, List.flatMap_map, List.flatMap_congr fun n _ => split_intText n, ← List.map_eq_flatMap]
    exact List.append_nil _

theorem oneValueLines_written (matrix : ℤ → ℤ → ℤ) (height width : ℕ) :
    OneValueLines ((fileValues matrix height width).map intText ++ [[]]) ↔ 0 < height ∧ 0 < width := by
  have hrows : ((fileValues matrix height width).map intText).map PyText.split =
      ((fileValues matrix height width).map fun v => [v]).map (List.map intText) := by
    rw [List.map_map, List.map_map]
    exact List.map_congr_left fun v _ => split_intText v
  have hshort : ∀ row ∈ (fileValues matrix height width).map fun v => [v], row.length ≤ 1 := by
    rw [List.forall_mem_map]
    exact fun v _ => le_rfl
  rw [oneValueLines_append_nil, oneValueLines_iff hrows, and_iff_left hshort, ← CanonicallyOrderedAdd.mul_pos,
    ← length_fileValues matrix]
  cases fileValues matrix height width with
  | nil => exact iff_of_false (fun ⟨v, hv⟩ => by cases hv) (lt_irrefl 0)
  | cons v values => exact iff_of_true ⟨v, rfl⟩ (Nat.succ_pos _)

/-- The two readers agree on the files of one value a line, if there is a value and all fit sixteen bits. What was written is
loaded again on the same condition. -/
theorem readersAgree_iff (np : LoadTxt) (defaultValue : ℚ) (matrix : ℤ → ℤ → ℤ) (height width : ℕ)
    (hsettings : settings.IsPlain) :
    (∀ noData header body, IsAscFile matrix height width settings noData header body →
      (ReadersAgree np defaultValue (joinLines (header ++ body)) ↔ OneValueLines body ∧ HasInt16 matrix height width)) ∧
    (LoadsMatrix np (writePatchMatrixAsAsc matrix height width settings) matrix height width ↔
      (0 < height ∧ 0 < width) ∧ HasInt16 matrix height width) := by
  refine ⟨fun noData header body h => readersAgree_layout_iff h defaultValue, ?_⟩
  have hfile := isAscFile_written matrix height width hsettings
  rw [writePatchMatrixAsAsc_eq, ← oneValueLines_written matrix height width]
  constructor
  · rintro ⟨m, hload, hrows, hcols, hentries⟩
    obtain ⟨-, -, hone, hint⟩ := of_load hfile hload
    exact ⟨hone, fun j i hj hi => hentries j i hj hi ▸ hint j i hj hi⟩
  · rintro ⟨hone, hint⟩
    exact loadsMatrix_of_oneValueLines np hfile hone hint

/-! ## A reader of tables -/

instance : DecidablePred IsInt16 := fun v => inferInstanceAs (Decidable (-2 ^ 15 ≤ v ∧ v < 2 ^ 15))

def firstLength (rows : List (List ℤ)) : ℕ := ((rows.filter (· ≠ [])).headD []).length

def loadRows (rows : List (List ℤ)) : Option (List ℤ) :=
  if (∀ row ∈ rows, row = [] ∨ row.length = firstLength rows) ∧ ∀ row ∈ rows, ∀ v ∈ row, IsInt16 v then some rows.flatten
  else none

theorem firstLength_of_columns {n : ℕ} (h : ∀ row ∈ rows, row = [] ∨ row.length = n) :
    ∀ row ∈ rows, row = [] ∨ row.length = firstLength rows := by
  intro row hrow
  refine (h row hrow).imp_right fun hlen => ?_
  unfold firstLength
  cases hfirst : rows.filter (· ≠ []) with
  | nil =>
    have hnil := List.filter_eq_nil_iff.mp hfirst row hrow
    rw [decide_eq_true_iff, not_not] at hnil
    rw [hnil]
    rfl
  | cons first rest =>
    have hmem : first ∈ rows.filter (· ≠ []) := hfirst ▸ List.mem_cons_self
    rw [List.mem_filter, decide_eq_true_iff] at hmem
    exact hlen.trans ((h first hmem.1).resolve_left hmem.2).symm

theorem mapM_readInt (hrows : lines.map PyText.split = rows.map (List.map intText)) :
    (lines.mapM fun line => (PyText.split line).mapM PyText.readInt) = some rows := by
  have hrow : ∀ row : List ℤ, (row.map intText).mapM PyText.readInt = some row := by
    intro row
    induction row with
    | nil => rfl
    | cons v row ih =>
      rw [List.map_cons, List.mapM_cons, PyText.readInt_intText (split_intText v), ih]
      rfl
  induction lines generalizing rows with
  | nil =>
    rw [List.map_nil, eq_comm, List.map_eq_nil_iff] at hrows
    rw [hrows]
    rfl
  | cons line lines ih =>
    cases rows with
    | nil => cases hrows
    | cons row rows =>
      obtain ⟨hline, hlines⟩ := List.cons_eq_cons.mp hrows
      rw [List.mapM_cons, hline, hrow, ih hlines]
      rfl

/-- Only integers, without comments. -/
def plainLoadTxt : LoadTxt where
  loadtxt lines := (lines.mapM fun line => (PyText.split line).mapM PyText.readInt).bind loadRows
  loads lines rows n hrows hcolumns hint := by
    rw [mapM_readInt hrows, Option.bind_some, loadRows, if_pos ⟨firstLength_of_columns hcolumns, hint⟩]
  loaded lines rows data hrows hdata := by
    rw [mapM_readInt hrows, Option.bind_some, loadRows] at hdata
    split_ifs at hdata with hload
    cases hdata
    refine ⟨⟨_, hload.1⟩, rfl, fun v hv => ?_⟩
    obtain ⟨row, hrow, hmem⟩ := List.mem_flatten.mp hv
    exact hload.2 row hrow v hmem

def zeroSettings : AscSettings := ⟨AscNumber.ofNat 0, AscNumber.ofNat 0, AscNumber.ofNat 1⟩

theorem zeroSettings_isPlain : zeroSettings.IsPlain := by
  have hword : ∀ n : ℕ, IsPlainWord (decimal n) := fun n => intText_natCast n ▸ isPlainWord_intText n
  unfold AscSettings.IsPlain
  simp only [List.forall_mem_cons]
  exact ⟨hword 0, hword 0, hword 1, fun _ h => absurd h List.not_mem_nil⟩

theorem oneCell_loadsMatrix :
    LoadsMatrix plainLoadTxt (writePatchMatrixAsAsc (fun _ _ => 7) 1 1 zeroSettings) (fun _ _ => 7) 1 1 := by
  have hseven : IsInt16 7 := by decide
  exact (readersAgree_iff plainLoadTxt 0 (fun _ _ => 7) 1 1 zeroSettings_isPlain).2.mpr ⟨by decide, fun _ _ _ _ => hseven⟩

/-- One row of two values on one line, which is taken for a line of the header. -/
theorem twoColumns_not_readersAgree : IsAscFile (fun _ _ => 7) 1 2 zeroSettings (intText 0) (headerLines 1 2 zeroSettings)
      [['7', ' ', '7']] ∧
    ∀ np defaultValue, ¬ ReadersAgree np defaultValue (joinLines (headerLines 1 2 zeroSettings ++ [['7', ' ', '7']])) := by
  have hfile : IsAscFile (fun _ _ => 7) 1 2 zeroSettings (intText 0) (headerLines 1 2 zeroSettings) [['7', ' ', '7']] := by
    apply isAscFile_headerLines zeroSettings_isPlain
    · rw [List.forall_mem_singleton]
      simp [IsPlainLine, PyText.isSpace, isBlank]
    · decide
  refine ⟨hfile, fun np defaultValue hagree => ?_⟩
  exact absurd ((readersAgree_layout_iff hfile defaultValue).mp hagree).1.all (by decide)

end ParFlow.Mask
