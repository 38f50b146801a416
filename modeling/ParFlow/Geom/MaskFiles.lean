import ParFlow.Geom.MaskDefs

/-! Reading a mask file gives the matrix that was written: the rows are flipped twice. -/

namespace ParFlow.Mask

open IntLoop TextScan TextStream ByteFile Pfb

/-! ## The text as items -/

section Text

/-- A byte in front of each item instead of behind it. -/
theorem shift_flatMap {ι : Type} {l : List ι} {f g : ι → List UInt8} {sep : List UInt8}
    (h : ∀ x ∈ l, sep ++ f x = g x ++ sep) : sep ++ l.flatMap f = l.flatMap g ++ sep := by
  induction l with
  | nil => rw [List.flatMap_nil, List.flatMap_nil, List.append_nil, List.nil_append]
  | cons x l ih =>
    rw [List.flatMap_cons, List.flatMap_cons, ← List.append_assoc, h x List.mem_cons_self, List.append_assoc,
      ih fun y hy => h y (List.mem_cons_of_mem x hy), List.append_assoc]

theorem utf8_flatMap {ι : Type} (l : List ι) (f : ι → List Char) : utf8 (l.flatMap f) = l.flatMap fun x => utf8 (f x) :=
  List.flatMap_assoc

def newline : List UInt8 := [10]

theorem utf8_newline : utf8 ['\n'] = newline := by decide

theorem newline_blank : ∀ b ∈ newline, isSpace b := by
  intro b hb
  rw [List.mem_singleton.mp hb]
  rfl

/-- The text of a value with the line end of the value before it. -/
def valueBytes (matrix : ℤ → ℤ → ℤ) (height : ℕ) (j i : ℤ) : List UInt8 := newline ++ utf8 (intText (matrix (height - j - 1) i))

def valuesBytes (matrix : ℤ → ℤ → ℤ) (height width : ℕ) : List UInt8 :=
  (upto 0 height).flatMap fun j => (upto 0 width).flatMap fun i => valueBytes matrix height j i

/-- A name of the header, after the line end before it. -/
def nameBytes (name : List Char) : List UInt8 := newline ++ utf8 name

def numberBytes (blanks : ℕ) (text : List Char) : List UInt8 := utf8 (List.replicate blanks ' ') ++ utf8 text

/-- The file without its last byte. -/
def maskBytes (matrix : ℤ → ℤ → ℤ) (height width : ℕ) (settings : AscSettings) : List UInt8 :=
  utf8 "ncols".toList ++ (numberBytes 10 (intText width) ++ (nameBytes "nrows".toList ++ (numberBytes 10 (intText height) ++
    (nameBytes "xllcorner".toList ++ (numberBytes 6 settings.xllcorner.text ++
    (nameBytes "yllcorner".toList ++ (numberBytes 6 settings.yllcorner.text ++
    (nameBytes "cellsize".toList ++ (numberBytes 7 settings.cellsize.text ++
    (nameBytes "NODATA_value".toList ++ (numberBytes 3 (intText 0) ++ valuesBytes matrix height width)))))))))))

theorem utf8_writePatchMatrixAsAsc (matrix : ℤ → ℤ → ℤ) (height width : ℕ) (settings : AscSettings) :
    utf8 (writePatchMatrixAsAsc matrix height width settings) = maskBytes matrix height width settings ++ newline := by
  have hvalues : newline ++ utf8 ((upto 0 height).flatMap fun j => (upto 0 width).flatMap fun i =>
      intText (matrix (height - j - 1) i) ++ ['\n']) = valuesBytes matrix height width ++ newline := by
    rw [utf8_flatMap]
    apply shift_flatMap
    intro j _
    rw [utf8_flatMap]
    apply shift_flatMap
    intro i _
    rw [utf8_append, utf8_newline]
    exact (List.append_assoc _ _ _).symm
  have hncols : "ncols          ".toList = "ncols".toList ++ List.replicate 10 ' ' := by decide
  have hnrows : "nrows          ".toList = "nrows".toList ++ List.replicate 10 ' ' := by decide
  have hxll : "xllcorner      ".toList = "xllcorner".toList ++ List.replicate 6 ' ' := by decide
  have hyll : "yllcorner      ".toList = "yllcorner".toList ++ List.replicate 6 ' ' := by decide
  have hcell : "cellsize       ".toList = "cellsize".toList ++ List.replicate 7 ' ' := by decide
  have hnodata : "NODATA_value   ".toList = "NODATA_value".toList ++ List.replicate 3 ' ' := by decide
  unfold writePatchMatrixAsAsc maskBytes nameBytes numberBytes
  rw [hncols, hnrows, hxll, hyll, hcell, hnodata]
  simp only [utf8_append, utf8_newline, List.append_assoc]
  rw [hvalues]

end Text

/-! ## Reading -/

section Read

variable {matrix : ℤ → ℤ → ℤ} {height width : ℕ} {settings : AscSettings} {v : Databox ℚ}

theorem intText_natCast (n : ℕ) : intText n = decimal n := by
  unfold intText
  rw [if_neg (not_lt.mpr (Int.natCast_nonneg n)), List.nil_append, Int.natAbs_natCast]

theorem blanks_blank (n : ℕ) : ∀ b ∈ utf8 (List.replicate n ' '), isSpace b := by
  intro b hb
  obtain ⟨c, hc, hb⟩ := List.mem_flatMap.mp hb
  rw [List.eq_of_mem_replicate hc] at hb
  have hspace : String.utf8EncodeChar ' ' = [32] := by decide
  rw [hspace, List.mem_singleton] at hb
  rw [hb]
  rfl

/-- A word of the header behind the line end of the line before. -/
theorem scans_name (name : List Char) (hne : utf8 name ≠ []) (hname : ∀ b ∈ utf8 name, isSpace b = false) :
    ScansItem takeWord (nameBytes name) (utf8 name) :=
  ⟨scans_takeWord newline_blank hne hname, blankAhead_of_blanks (List.cons_ne_nil _ _) newline_blank⟩

/-- Blanks and a value that is read across them. -/
theorem scans_blanks {α : Type} {m : Reader α} {text : List Char} {a : α} (n : ℕ)
    (h : Scans m (numberBytes (n + 1) text) a) : ScansItem m (numberBytes (n + 1) text) a := by
  refine ⟨h, blankAhead_of_blanks ?_ (blanks_blank _)⟩
  intro hnil
  have hlen := length_le_length_utf8 (List.replicate (n + 1) ' ')
  rw [hnil, List.length_replicate] at hlen
  exact absurd hlen (Nat.not_succ_le_zero _)

theorem scans_count (blanks n : ℕ) :
    ScansItem takeInt (numberBytes (blanks + 1) (intText n)) (n : ℤ) := by
  rw [intText_natCast]
  exact scans_blanks blanks (scans_takeInt n (blanks_blank _))

theorem scans_number (blanks : ℕ) (x : AscNumber) :
    ScansItem takeDouble (numberBytes (blanks + 1) x.text) x.value :=
  scans_blanks blanks (x.scans.skip_blanks (blanks_blank _))

theorem scans_value {j i : ℤ} (hpos : 0 ≤ matrix (height - j - 1) i) :
    ScansItem takeDouble (valueBytes matrix height j i) (matrix (height - j - 1) i : ℚ) := by
  obtain ⟨n, hn⟩ := Int.eq_ofNat_of_zero_le hpos
  unfold valueBytes
  rw [hn, intText_natCast, Int.cast_natCast]
  exact ⟨scans_takeDouble n newline_blank, blankAhead_of_blanks (List.cons_ne_nil _ _) newline_blank⟩

/-- A databox with the values of the matrix. -/
def matrixBox (matrix : ℤ → ℤ → ℤ) (height width : ℕ) : Databox ℚ :=
  ⟨width, height, 1, 0, 0, 0, 0, 0, 0, fun k => (matrix (k / width) (k % width) : ℚ)⟩

theorem matrixBox_coeffs {j i : ℤ} (hi : 0 ≤ i ∧ i < width) :
    (matrixBox matrix height width).coeffs (j * width + i) = (matrix j i : ℚ) := by
  have hdiv : (j * width + i) / width = j := by
    rw [add_comm, Int.add_mul_ediv_right _ _ (by omega), Int.ediv_eq_zero_of_lt hi.1 hi.2, zero_add]
  have hmod : (j * width + i) % width = i := by
    rw [add_comm, Int.add_mul_emod_self_right, Int.emod_eq_of_lt hi.1 hi.2]
  unfold matrixBox
  dsimp only
  rw [hdiv, hmod]

/-- The index that the value of line `j`, column `i` of the file goes to. -/
def flippedIndex (height width : ℕ) (j i : ℤ) : ℤ := (height - j - 1) * width + i

/-- The sizes of the header. -/
def HasSizes (height width : ℕ) (v : Databox ℚ) : Prop := v.nx = width ∧ v.ny = height

/-- What one value of the file changes. -/
theorem fill_flippedIndex {j i : ℤ} (hi : 0 ≤ i ∧ i < width) (hv : HasSizes height width v) :
    fill (matrixBox matrix height width) v (flippedIndex height width j i) =
      { v with coeffs := Function.update v.coeffs (v.coeff i (v.ny - 1 - j) 0) (matrix (height - j - 1) i : ℚ) } := by
  have hindex : v.coeff i (v.ny - 1 - j) 0 = flippedIndex height width j i := by
    unfold Databox.coeff flippedIndex
    rw [hv.1, hv.2]
    ring
  unfold fill
  rw [hindex]
  unfold flippedIndex
  rw [matrixBox_coeffs hi]

theorem scans_readASCValue {j i : ℤ} (hi : 0 ≤ i ∧ i < width) (hpos : 0 ≤ matrix (height - j - 1) i)
    (hv : HasSizes height width v) : ScansItem (readASCValue j v i) (valueBytes matrix height j i)
      (fill (matrixBox matrix height width) v (flippedIndex height width j i)) := by
  rw [fill_flippedIndex hi hv]
  unfold readASCValue
  exact (scans_value hpos).map _

theorem HasSizes.foldl_fill (hv : HasSizes height width v) (d : Databox ℚ) (idxs : List ℤ) :
    HasSizes height width (idxs.foldl (fill d) v) := by
  obtain ⟨⟨hx, hy, -⟩, -⟩ := (Pfb.foldl_fill d v idxs).1
  exact ⟨hx.trans hv.1, hy.trans hv.2⟩

def fileIndices (height width : ℕ) : List ℤ :=
  (upto 0 height).flatMap fun j => (upto 0 width).map fun i => flippedIndex height width j i

/-- The rows fill the databox, the last one first. -/
theorem scans_rows (hpos : ∀ j i : ℤ, (0 ≤ j ∧ j < height) → (0 ≤ i ∧ i < width) → 0 ≤ matrix j i)
    (hv : HasSizes height width v) :
    ScansItem ((upto 0 height).foldlM (fun v j => (upto 0 width).foldlM (readASCValue j) v) v)
      (valuesBytes matrix height width) ((fileIndices height width).foldl (fill (matrixBox matrix height width)) v) := by
  let d := matrixBox matrix height width
  have hrow : ∀ j : ℤ, (0 ≤ j ∧ j < height) → ∀ v, HasSizes height width v →
      ScansItem ((upto 0 width).foldlM (readASCValue j) v) ((upto 0 width).flatMap fun i => valueBytes matrix height j i)
        (((upto 0 width).map fun i => flippedIndex height width j i).foldl (fill d) v) := by
    intro j hj v hv
    rw [List.foldl_map]
    apply ScansItem.foldlM (HasSizes height width)
    · intro i hi v hv
      rw [mem_upto] at hi
      exact scans_readASCValue hi (hpos _ _ (by omega) hi) hv
    · exact fun i _ v hv => hv.foldl_fill d [flippedIndex height width j i]
    · exact hv
  unfold fileIndices
  rw [List.foldl_flatMap]
  apply ScansItem.foldlM (HasSizes height width)
  · intro j hj v hv
    rw [mem_upto] at hj
    exact hrow j hj v hv
  · exact fun j _ v hv => hv.foldl_fill d _
  · exact hv

theorem mem_fileIndices {j i : ℤ} (hj : 0 ≤ j ∧ j < height) (hi : 0 ≤ i ∧ i < width) :
    j * width + i ∈ fileIndices height width := by
  unfold fileIndices flippedIndex
  simp only [List.mem_flatMap, List.mem_map, mem_upto]
  refine ⟨height - j - 1, by omega, i, hi, ?_⟩
  ring

/-- A databox that is filled from a file has the values of the matrix. -/
theorem coeffs_fileIndices (hv : HasSizes height width v) {j i : ℤ} (hj : 0 ≤ j ∧ j < height) (hi : 0 ≤ i ∧ i < width) :
    ((fileIndices height width).foldl (fill (matrixBox matrix height width)) v).coeffs
      (((fileIndices height width).foldl (fill (matrixBox matrix height width)) v).coeff i j 0) = matrix j i := by
  have hcoeff : ((fileIndices height width).foldl (fill (matrixBox matrix height width)) v).coeff i j 0 = j * width + i := by
    unfold Databox.coeff
    rw [(hv.foldl_fill _ _).1]
    ring
  rw [hcoeff]
  exact ((Pfb.foldl_fill _ v _).2 _ (mem_fileIndices hj hi)).trans (matrixBox_coeffs hi)

/-- The databox of a file has the sizes and the values of the matrix. -/
theorem readASCMask_run (settings : AscSettings) (defaultValue : ℚ)
    (hpos : ∀ j i : ℤ, (0 ≤ j ∧ j < height) → (0 ≤ i ∧ i < width) → 0 ≤ matrix j i) :
    ∃ v rest, (readASCMask defaultValue).run (utf8 (writePatchMatrixAsAsc matrix height width settings)) = some (v, rest) ∧
      HasSizes height width v ∧
      ∀ j i : ℤ, (0 ≤ j ∧ j < height) → (0 ≤ i ∧ i < width) → v.coeffs (v.coeff i j 0) = matrix j i := by
  let start : Databox ℚ := ⟨width, height, 1, settings.xllcorner.value, settings.yllcorner.value, 0,
    settings.cellsize.value, settings.cellsize.value, settings.cellsize.value, fun _ => defaultValue⟩
  let v := (fileIndices height width).foldl (fill (matrixBox matrix height width)) start
  have hstart : HasSizes height width start := ⟨rfl, rfl⟩
  refine ⟨v, newline, ?_, hstart.foldl_fill _ _, fun j i hj hi => coeffs_fileIndices hstart hj hi⟩
  have hrows := scans_rows (v := start) hpos hstart
  have hncols : Scans takeWord (utf8 "ncols".toList) (utf8 "ncols".toList) := by
    have hword : Scans takeWord ([] ++ utf8 "ncols".toList) (utf8 "ncols".toList) := by
      apply scans_takeWord (fun b hb => absurd hb List.not_mem_nil)
      · decide +kernel
      · decide +kernel
    exact hword
  have hnodata : ScansItem takeWord (numberBytes 3 (intText 0)) (utf8 (intText 0)) := by
    apply scans_blanks 2
    apply scans_takeWord (blanks_blank _)
    · decide +kernel
    · decide +kernel
  have hscan : Scans (readASCMask defaultValue) (maskBytes matrix height width settings) v := by
    unfold readASCMask maskBytes
    apply hncols.bind_item
    apply (scans_count 9 width).bind
    apply (scans_name "nrows".toList (by decide +kernel) (by decide +kernel)).bind
    apply (scans_count 9 height).bind
    apply (scans_name "xllcorner".toList (by decide +kernel) (by decide +kernel)).bind
    apply (scans_number 5 settings.xllcorner).bind
    apply (scans_name "yllcorner".toList (by decide +kernel) (by decide +kernel)).bind
    apply (scans_number 5 settings.yllcorner).bind
    apply (scans_name "cellsize".toList (by decide +kernel) (by decide +kernel)).bind
    apply (scans_number 6 settings.cellsize).bind
    apply (scans_name "NODATA_value".toList (by decide +kernel) (by decide +kernel)).bind
    exact hnodata.bind hrows
  have hend : BlankAhead newline := fun b hb => newline_blank b (List.mem_of_mem_head? hb)
  rw [utf8_writePatchMatrixAsAsc]
  exact hscan newline hend

end Read

end ParFlow.Mask
