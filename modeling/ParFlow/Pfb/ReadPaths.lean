import ParFlow.Pfb.Subarray

/-! All ways to read a file that `write_pfb` has made: with the subgrid headers of the file or with the
layout inferred from the first one, as a whole, in part, and in a sequence of files. -/

namespace ParFlow.Pfb

open ByteFile ExceptLoop NdArray BlockSplit

/-! ## The inferred numbers of subgrids -/

section Inferred

variable {n p : ℤ}

/-- The size of the first of `p` blocks. -/
def firstSize (n p : ℤ) : ℤ := (n + p - 1) / p

theorem firstSize_bounds (hp : 0 < p) : p * firstSize n p < n + p ∧ n ≤ p * firstSize n p := by
  have hdiv := Int.mul_ediv_add_emod (n + p - 1) p
  have h0 := Int.emod_nonneg (n + p - 1) hp.ne'
  have h1 := Int.emod_lt_of_pos (n + p - 1) hp
  unfold firstSize
  omega

theorem size_zero_eq (hp : 0 < p) (hn : 0 ≤ n) : size (n.tdiv p) (n.tmod p) 0 = firstSize n p := by
  have h0 := Int.emod_nonneg n hp.ne'
  have h1 := Int.emod_lt_of_pos n hp
  have hdiv := Int.mul_ediv_add_emod n p
  obtain ⟨hlt, hle⟩ := firstSize_bounds (n := n) hp
  rw [Int.tdiv_eq_ediv_of_nonneg hn, Int.tmod_eq_emod_of_nonneg hn]
  unfold size
  split_ifs with hrem
  · have hlow : n / p < firstSize n p := lt_of_mul_lt_mul_left (show p * (n / p) < p * firstSize n p by omega) hp.le
    have hhigh : firstSize n p < n / p + 2 :=
      lt_of_mul_lt_mul_left (show p * firstSize n p < p * (n / p + 2) by rw [mul_add]; omega) hp.le
    omega
  · have hlow : n / p ≤ firstSize n p := le_of_mul_le_mul_left (show p * (n / p) ≤ p * firstSize n p by omega) hp
    have hhigh : firstSize n p < n / p + 1 :=
      lt_of_mul_lt_mul_left (show p * firstSize n p < p * (n / p + 1) by rw [mul_add]; omega) hp.le
    omega

theorem inferredCount_le (hp : 0 < p) (hn : 0 < n) : inferredCount n (firstSize n p) ≤ p := by
  obtain ⟨-, hle⟩ := firstSize_bounds (n := n) hp
  have hfirst : 0 < firstSize n p := by
    by_contra h
    have := mul_nonpos_of_nonneg_of_nonpos hp.le (not_lt.mp h)
    omega
  have hdiv : (n : ℚ) / (firstSize n p : ℚ) ≤ p := by
    rw [div_le_iff₀ (by exact_mod_cast hfirst)]
    exact_mod_cast hle
  have hfloor : inferredCount n (firstSize n p) < p + 1 := by
    unfold inferredCount
    rw [Int.floor_lt]
    push_cast
    linarith
  omega

/-- The first block is as large as the others or larger by one, so that blocks of its size may be fewer. The
sizes that a file can hold leave the rounding of the quotient without effect. -/
theorem inferredCount_eq_iff (hp : 0 < p) (hn : 0 < n) (hfile : n < 2 ^ 31) :
    inferredCount n (firstSize n p) = p ↔ (p - 1) * firstSize n p < n := by
  obtain ⟨hlt, hle⟩ := firstSize_bounds (n := n) hp
  have hfirst : 0 < firstSize n p := by
    by_contra h
    have := mul_nonpos_of_nonneg_of_nonpos hp.le (not_lt.mp h)
    omega
  have hfirst' : (0 : ℚ) < firstSize n p := by exact_mod_cast hfirst
  have hcount := inferredCount_le hp hn
  have hfloor : inferredCount n (firstSize n p) = p ↔ (p - 1) * firstSize n p * 10 ^ 6 + firstSize n p ≤ n * 10 ^ 6 := by
    have hge : p ≤ inferredCount n (firstSize n p) ↔ (p : ℚ) ≤ (n : ℚ) / (firstSize n p : ℚ) + (1 - 1 / 10 ^ 6) := Int.le_floor
    rw [le_antisymm_iff, and_iff_right hcount, hge, ← sub_le_iff_le_add, le_div_iff₀ hfirst']
    have hscale : ((p : ℚ) - (1 - 1 / 10 ^ 6)) * firstSize n p ≤ n ↔
        ((p : ℚ) - 1) * firstSize n p * 10 ^ 6 + firstSize n p ≤ n * 10 ^ 6 := by
      constructor
      · intro h
        linarith
      · intro h
        linarith
    rw [hscale]
    exact_mod_cast Iff.rfl
  rw [hfloor]
  constructor
  · intro h
    nlinarith
  · intro h
    rcases le_or_gt (firstSize n p) (10 ^ 6) with hsmall | hlarge
    · omega
    · have hp' : p ≤ 2148 := by
        by_contra hbig
        have : 2148 * firstSize n p ≤ (p - 1) * firstSize n p := mul_le_mul_of_nonneg_right (by omega) hfirst.le
        omega
      have hexp : (p - 1) * firstSize n p = p * firstSize n p - firstSize n p := by ring
      omega

end Inferred

/-- Blocks as large as the first one are as many as the subgrids along every axis. -/
def Recovered (dims counts : Cell) : Prop :=
  (counts.1 - 1) * firstSize dims.1 counts.1 < dims.1 ∧ (counts.2.1 - 1) * firstSize dims.2.1 counts.2.1 < dims.2.1 ∧
    (counts.2.2 - 1) * firstSize dims.2.2 counts.2.2 < dims.2.2

namespace FileLayout

variable (L : FileLayout)

theorem shape_zero : L.shape 0 = (firstSize L.nx L.p, firstSize L.ny L.q, firstSize L.nz L.r) := by
  obtain ⟨hp, hq, hr⟩ := L.counts_pos
  obtain ⟨hx, hy, hz⟩ := L.dims_pos
  have hin : InCounts L (0, 0, 0) := by
    simp only [InCounts]
    omega
  have hidx : L.index (0, 0, 0) = 0 := by simp [index]
  have hshape := shape_index hin
  rw [hidx] at hshape
  rw [hshape]
  simp only [bound, Nat.cast_zero, zero_add, Nat.cast_one, dims, counts, Axis.coord]
  have hsize : ∀ m l : ℤ, BlockSplit.start m l 1 - BlockSplit.start m l 0 = size m l 0 := by
    intro m l
    have hsucc := start_succ m l 0
    rw [zero_add] at hsucc
    omega
  rw [hsize, hsize, hsize, size_zero_eq hp hx.le, size_zero_eq hq hy.le, size_zero_eq hr hz.le]

theorem inferred_le : L.inferred.1 ≤ L.p ∧ L.inferred.2.1 ≤ L.q ∧ L.inferred.2.2 ≤ L.r := by
  obtain ⟨hp, hq, hr⟩ := L.counts_pos
  obtain ⟨hx, hy, hz⟩ := L.dims_pos
  unfold inferred
  rw [shape_zero]
  exact ⟨inferredCount_le hp hx, inferredCount_le hq hy, inferredCount_le hr hz⟩

variable {L}

theorem inferred_eq_iff (hL : FitsHeader L) : L.inferred = L.counts ↔ Recovered L.dims L.counts := by
  obtain ⟨hp, hq, hr⟩ := L.counts_pos
  obtain ⟨hx, hy, hz⟩ := L.dims_pos
  obtain ⟨bx, bY, bz, -⟩ := hL
  unfold inferred
  rw [shape_zero]
  simp only [counts, dims, Recovered, Prod.mk.injEq]
  rw [inferredCount_eq_iff hp hx bx, inferredCount_eq_iff hq hy bY, inferredCount_eq_iff hr hz bz]

end FileLayout

/-! ## Readers -/

section Readers

variable {L : FileLayout} {sp : Spacing} {vals : Cell → Word} {file : File} {reader : ParflowBinaryReader}

theorem newReader_recovers (hf : IsPfb L sp vals file) (hL : L.inferred = L.counts) (readSgInfo : Bool) :
    ∃ reader, newReader file readSgInfo = .ok reader ∧ Recovers L reader ∧ reader.file = file := by
  have hcounts : ∀ {p q r : ℤ}, p = L.inferred.1 → q = L.inferred.2.1 → r = L.inferred.2.2 → (p, q, r) = L.counts := by
    intro p q r hp hq hr
    rw [hp, hq, hr, ← hL]
  cases readSgInfo with
  | true =>
    obtain ⟨reader, hnew, hl, hfile, -, hp, hq, hr⟩ := newReader_laysOut hf
    exact ⟨reader, hnew, recovers_of_coherent hl (newReader_coherent hnew) (hcounts hp hq hr), hfile⟩
  | false =>
    obtain ⟨reader, hr, hfile, hhead, hp, hq, hrr, hinfo⟩ := computeSubgridInfo_ok L sp file
    have hnew : newReader file false = .ok reader := by
      rw [newReader_eq hf, bind_ok hr]
      rfl
    have hprecalc : reader.info = precalculateSubgridInfo L.nx L.ny L.nz L.p L.q L.r := by
      rw [hinfo, hL]
      rfl
    rw [L.info_eq] at hprecalc
    have hl : LaysOut L reader :=
      ⟨by rw [hhead]; rfl, by rw [hhead]; rfl, by rw [hprecalc], by rw [hprecalc], by rw [hprecalc]⟩
    exact ⟨reader, hnew, recovers_of_coherent hl (newReader_coherent hnew) (hcounts hp hq hrr), hfile⟩

/-- The reader of another file of the layout. -/
theorem Recovers.withFile (hr : Recovers L reader) (file : File) : Recovers L { reader with file := file } :=
  ⟨⟨hr.laysOut.dims, hr.laysOut.nSubgrids, hr.laysOut.offsets, hr.laysOut.starts, hr.laysOut.shapes⟩, hr.counts,
    hr.coordsX, hr.coordsY, hr.coordsZ⟩

/-- The array holds the values of a box, with the axes in the order that was asked for. -/
def HoldsBox (vals : Cell → Word) (zFirst : Bool) (start size : Cell) (a : NdArray Word) : Prop :=
  a.dims = orient zFirst size ∧
    ∀ c, InDims size c → a.get (orient zFirst c) = vals (start.1 + c.1, start.2.1 + c.2.1, start.2.2 + c.2.2)

/-- The box that keys ask for. -/
def keyBox (header : Header) : Option (PerAxis AxisKeys) → Cell × Cell
  | none => ((0, 0, 0), (header.nx, header.ny, header.nz))
  | some keys => keyRange keys header

theorem readData_spec (hr : Recovers L reader) (hf : IsPfb L sp vals reader.file) (keys : Option (PerAxis AxisKeys))
    (hkeys : SubBox L.dims (keyBox reader.header keys).1 (keyBox reader.header keys).2) (zFirst : Bool)
    (empty : Cell → Word) : ∃ a, readData reader keys zFirst empty = .ok a ∧
      HoldsBox vals zFirst (keyBox reader.header keys).1 (keyBox reader.header keys).2 a := by
  cases keys with
  | none =>
    obtain ⟨a, ha, hdims, hget⟩ := readAllSubgrids_spec hr.laysOut hf zFirst empty
    refine ⟨a, ha, ?_, ?_⟩
    · rw [hdims, ← hr.laysOut.dims]
      rfl
    · intro c hc
      simp only [keyBox, zero_add]
      exact hget c (hr.laysOut.dims ▸ hc)
  | some keys => exact readSubarray_spec hr hf hkeys zFirst empty

theorem keyBox_congr {h₁ h₂ : Header} (h : (h₁.nx, h₁.ny, h₁.nz) = (h₂.nx, h₂.ny, h₂.nz))
    (keys : Option (PerAxis AxisKeys)) : keyBox h₁ keys = keyBox h₂ keys := by
  cases keys with
  | none => exact congrArg (Prod.mk (0, 0, 0)) h
  | some keys =>
    simp only [Prod.mk.injEq] at h
    simp only [keyBox, keyRange, h.1, h.2.1, h.2.2]

theorem place_whole {dims : Cell} (hdims : 0 ≤ dims.1 ∧ 0 ≤ dims.2.1 ∧ 0 ≤ dims.2.2) {b : NdArray Word} (hb : b.dims = dims)
    (empty : Cell → Word) : ∃ a, place ⟨dims, empty⟩ (0, 0, 0) dims b = .ok a ∧ a.Same b := by
  subst hb
  obtain ⟨a, ha, hd, hin, -⟩ := assign_block ⟨b.dims, empty⟩ b (0, 0, 0) (by simp only; omega) (by simp only; omega)
    (by simp only; omega)
  refine ⟨a, ?_, hd, ?_⟩
  · unfold place
    rw [ha]
  · intro c hc
    rw [hd] at hc
    simp only [sub_zero] at hin
    exact hin c hc

theorem sequenceDims_eq (header : Header) (keys : Option (PerAxis AxisKeys)) (zFirst : Bool) :
    sequenceDims header keys zFirst = orient zFirst (keyBox header keys).2 := by
  cases keys <;> rfl

theorem HoldsBox.same {zFirst : Bool} {start size : Cell} {a b : NdArray Word} (hb : HoldsBox vals zFirst start size b)
    (h : a.Same b) : HoldsBox vals zFirst start size a := by
  refine ⟨h.1.trans hb.1, ?_⟩
  intro c hc
  rw [← hb.2 c hc]
  apply h.2
  rw [h.1, hb.1, inDims_orient]
  exact hc

theorem readPfbSequence_spec (files : List File) (hfiles : files ≠ []) (valsOf : File → Cell → Word)
    (hf : ∀ f ∈ files, ∃ sp, IsPfb L sp (valsOf f) f) (hL : L.inferred = L.counts) (keys : Option (PerAxis AxisKeys))
    {header : Header} (hheader : (header.nx, header.ny, header.nz) = L.dims)
    (hkeys : SubBox L.dims (keyBox header keys).1 (keyBox header keys).2) (zFirst readSgInfo : Bool) (empty : Cell → Word) :
    ∃ arrays, readPfbSequence files keys zFirst readSgInfo empty = .ok arrays ∧ List.Forall₂ (fun f a =>
      HoldsBox (valsOf f) zFirst (keyBox header keys).1 (keyBox header keys).2 a) files arrays := by
  obtain ⟨first, rest, rfl⟩ := List.exists_cons_of_ne_nil hfiles
  obtain ⟨sp₀, hf₀⟩ := hf first List.mem_cons_self
  obtain ⟨base, hbase, hr, -⟩ := newReader_recovers hf₀ hL readSgInfo
  have hbox : keyBox header keys = keyBox base.header keys := keyBox_congr (hheader.trans hr.laysOut.dims.symm) keys
  rw [hbox] at hkeys ⊢
  obtain ⟨hx, hy, hz⟩ := hkeys
  have hdims : 0 ≤ (sequenceDims base.header keys zFirst).1 ∧ 0 ≤ (sequenceDims base.header keys zFirst).2.1 ∧
      0 ≤ (sequenceDims base.header keys zFirst).2.2 := by
    rw [sequenceDims_eq]
    cases zFirst with
    | false => exact ⟨hx.2.1.le, hy.2.1.le, hz.2.1.le⟩
    | true => exact ⟨hz.2.1.le, hy.2.1.le, hx.2.1.le⟩
  unfold readPfbSequence
  rw [bind_ok (show nth (first :: rest) 0 = .ok first from rfl), bind_ok hbase]
  apply mapM_forall₂
  intro f hmem
  obtain ⟨sp, hpfb⟩ := hf f hmem
  obtain ⟨b, hb, hholds⟩ := readData_spec (hr.withFile f) hpfb keys ⟨hx, hy, hz⟩ zFirst empty
  obtain ⟨a, ha, hsame⟩ := place_whole hdims (hholds.1.trans (sequenceDims_eq _ _ _).symm) empty
  refine ⟨a, ?_, hholds.same hsame⟩
  rw [bind_ok hb]
  exact ha

theorem eq_of_mul_le {a b A B : ℤ} (ha : a ≤ A) (hb : b ≤ B) (ha0 : 0 < a) (hb0 : 0 < b) (h : A * B ≤ a * b) : a = A ∧ b = B := by
  constructor
  · nlinarith
  · nlinarith

/-- With fewer subgrids than the file has, the whole array cannot be read. -/
theorem readPfb_ne_ok (hf : IsPfb L sp vals file) (hL : L.inferred ≠ L.counts) (zFirst : Bool) (empty : Cell → Word)
    (a : NdArray Word) : readPfb file none zFirst false empty ≠ .ok a := by
  obtain ⟨reader, hr, hfile, hhead, -, -, -, hinfo⟩ := computeSubgridInfo_ok L sp file
  obtain ⟨hp, hq, hrr⟩ := L.inferred_pos
  have hlt : L.inferred.1 * L.inferred.2.1 * L.inferred.2.2 < L.p * L.q * L.r := by
    obtain ⟨lp, lq, lr⟩ := L.inferred_le
    by_contra hge
    apply hL
    have hpq : L.inferred.1 * L.inferred.2.1 ≤ L.p * L.q := mul_le_mul lp lq hq.le (hp.le.trans lp)
    obtain ⟨h₁, h₂⟩ := eq_of_mul_le hpq lr (mul_pos hp hq) hrr (not_lt.mp hge)
    obtain ⟨h₃, h₄⟩ := eq_of_mul_le lp lq hp hq h₁.ge
    exact Prod.ext h₃ (Prod.ext h₄ h₂)
  have hcount : (L.inferred.1 * L.inferred.2.1 * L.inferred.2.2).toNat < L.count := by
    have := L.count_eq
    have : 0 < L.inferred.1 * L.inferred.2.1 * L.inferred.2.2 := by positivity
    omega
  have hnew : newReader file false = .ok reader := by
    rw [newReader_eq hf, bind_ok hr]
    rfl
  -- the first subgrid that the reader does not know
  have hstep : ∀ st st', placeSubgrid reader zFirst st (L.inferred.1 * L.inferred.2.1 * L.inferred.2.2).toNat ≠ .ok st' := by
    intro st st' h
    obtain ⟨shape, hshape, -⟩ := exists_of_bind_ok h
    rw [hinfo, precalculateSubgridInfo_eq] at hshape
    unfold nth infoUpTo at hshape
    rw [List.getElem?_eq_none (by simp)] at hshape
    exact absurd hshape (by simp)
  unfold readPfb
  rw [bind_ok hnew]
  show readAllSubgrids reader zFirst empty ≠ .ok a
  unfold readAllSubgrids
  apply foldlM_ne_ok hstep
  rw [hhead]
  exact List.mem_range.mpr hcount

end Readers

/-! ## Written files -/

/-- A file that `write_pfb` has made from an array of these sizes. -/
def Written (dims counts : Cell) (file : File) : Prop :=
  ∃ sp array zFirst a, arrayShape zFirst array = .ok (dims, a) ∧
    writePfb sp array counts.1 counts.2.1 counts.2.2 zFirst = .ok file

/-- What the read paths return are these values. A sequence is one of files with the same layout. -/
structure ReadsAs (dims counts : Cell) (file : File) (vals : Cell → Word) (readSgInfo zFirst : Bool) (empty : Cell → Word) :
    Prop where
  whole : ∃ a, readPfb file none zFirst readSgInfo empty = .ok a ∧ HoldsBox vals zFirst (0, 0, 0) dims a
  subarray : ∀ start size, SubBox dims start size → ∃ reader a, newReader file readSgInfo = .ok reader ∧
    readSubarray reader start size zFirst empty = .ok a ∧ HoldsBox vals zFirst start size a
  keys : ∀ header keys, (header.nx, header.ny, header.nz) = dims → SubBox dims (keyRange keys header).1 (keyRange keys header).2 →
    ∃ a, readPfb file (some keys) zFirst readSgInfo empty = .ok a ∧
      HoldsBox vals zFirst (keyRange keys header).1 (keyRange keys header).2 a
  sequence : ∀ before after, (∀ f ∈ before ++ after, Written dims counts f) → ∀ header keys,
    (header.nx, header.ny, header.nz) = dims → SubBox dims (keyBox header keys).1 (keyBox header keys).2 →
    ∃ arrays a, readPfbSequence (before ++ file :: after) keys zFirst readSgInfo empty = .ok arrays ∧
      arrays[before.length]? = some a ∧ HoldsBox vals zFirst (keyBox header keys).1 (keyBox header keys).2 a

/-- All read paths return the same values at the same cells. -/
def ReadPathsAgree (dims counts : Cell) (file : File) : Prop :=
  ∃ vals, ∀ readSgInfo zFirst empty, ReadsAs dims counts file vals readSgInfo zFirst empty

section Written

variable {L : FileLayout} {file : File}

theorem Written.isPfb (h : Written L.dims L.counts file) : FitsHeader L ∧ ∃ sp vals, IsPfb L sp vals file := by
  obtain ⟨sp, array, zFirst, a, harray, hfile⟩ := h
  have hfit := fits_of_writePfb harray hfile
  obtain ⟨vals, hf, -⟩ := isPfb_of_writePfb harray hfile
  refine ⟨?_, sp, vals, hf⟩
  simp only [headerFields, List.mem_cons, List.not_mem_nil, or_false, forall_eq_or_imp, forall_eq, Field.Fits, true_and] at hfit
  unfold FitsHeader
  omega

theorem readPathsAgree_of_recovered (h : Written L.dims L.counts file) (hrec : Recovered L.dims L.counts) :
    ReadPathsAgree L.dims L.counts file := by
  obtain ⟨hfits, sp, vals, hf⟩ := h.isPfb
  have hL := (FileLayout.inferred_eq_iff hfits).mpr hrec
  obtain ⟨hx, hy, hz⟩ := L.dims_pos
  refine ⟨vals, ?_⟩
  intro readSgInfo zFirst empty
  obtain ⟨reader, hnew, hr, hfile⟩ := newReader_recovers hf hL readSgInfo
  rw [← hfile] at hf
  have hread : ∀ header keys, (header.nx, header.ny, header.nz) = L.dims →
      SubBox L.dims (keyBox header keys).1 (keyBox header keys).2 →
      ∃ a, readPfb file keys zFirst readSgInfo empty = .ok a ∧
        HoldsBox vals zFirst (keyBox header keys).1 (keyBox header keys).2 a := by
    intro header keys hheader hbox
    rw [keyBox_congr (hheader.trans hr.laysOut.dims.symm) keys] at hbox ⊢
    obtain ⟨a, ha, hholds⟩ := readData_spec hr hf keys hbox zFirst empty
    exact ⟨a, (bind_ok hnew _).trans ha, hholds⟩
  constructor
  · exact hread (L.header sp) none rfl ⟨⟨le_rfl, hx, by simp [keyBox, FileLayout.header, FileLayout.dims]⟩,
      ⟨le_rfl, hy, by simp [keyBox, FileLayout.header, FileLayout.dims]⟩,
      ⟨le_rfl, hz, by simp [keyBox, FileLayout.header, FileLayout.dims]⟩⟩
  · intro start size hbox
    obtain ⟨a, ha, hholds⟩ := readSubarray_spec hr hf hbox zFirst empty
    exact ⟨reader, a, hnew, ha, hholds⟩
  · intro header keys hheader hbox
    exact hread header (some keys) hheader hbox
  · intro before after hfiles header keys hheader hbox
    rw [hfile] at hf
    -- the values of each file of the sequence
    have hvals : ∀ f : File, ∃ v : Cell → Word, (f = file → v = vals) ∧ (f ∈ before ++ file :: after → ∃ sp, IsPfb L sp v f) := by
      intro f
      by_cases hfe : f = file
      · exact ⟨vals, fun _ => rfl, fun _ => ⟨sp, hfe ▸ hf⟩⟩
      · by_cases hmem : f ∈ before ++ after
        · obtain ⟨-, sp', v, hv⟩ := (hfiles f hmem).isPfb
          exact ⟨v, fun he => absurd he hfe, fun _ => ⟨sp', hv⟩⟩
        · refine ⟨vals, fun _ => rfl, fun hin => absurd hin ?_⟩
          simp only [List.mem_append, List.mem_cons] at hmem ⊢
          tauto
    choose valsOf hvalsOf using hvals
    obtain ⟨arrays, harrays, hall⟩ := readPfbSequence_spec (before ++ file :: after) (by simp) valsOf
      (fun f hmem => (hvalsOf f).2 hmem) hL keys hheader hbox zFirst readSgInfo empty
    have hlen := hall.length_eq
    rw [List.length_append, List.length_cons] at hlen
    have hget := hall.get (i := before.length) (by simp) (by omega)
    refine ⟨arrays, arrays.get ⟨before.length, by omega⟩, harrays, by simp, ?_⟩
    rw [← (hvalsOf file).1 rfl]
    simpa using hget

theorem not_readPathsAgree (h : Written L.dims L.counts file) (hrec : ¬ Recovered L.dims L.counts) :
    ¬ ReadPathsAgree L.dims L.counts file := by
  obtain ⟨hfits, sp, vals, hf⟩ := h.isPfb
  have hL := mt (FileLayout.inferred_eq_iff hfits).mp hrec
  intro hagree
  obtain ⟨_, hreads⟩ := hagree
  obtain ⟨a, ha, -⟩ := (hreads false true fun _ _ => 0).whole
  exact readPfb_ne_ok hf hL true _ a ha

end Written

/-- For every file that `write_pfb` makes with no subgrid empty. -/
theorem readPathsAgree_iff_recovered {dims counts : Cell} (hp : 1 ≤ counts.1 ∧ counts.1 ≤ dims.1)
    (hq : 1 ≤ counts.2.1 ∧ counts.2.1 ≤ dims.2.1) (hr : 1 ≤ counts.2.2 ∧ counts.2.2 ≤ dims.2.2) {file : File}
    (h : Written dims counts file) : ReadPathsAgree dims counts file ↔ Recovered dims counts := by
  have hw : Written (fileLayout _ _ _ _ _ _ hp hq hr).dims (fileLayout _ _ _ _ _ _ hp hq hr).counts file := h
  constructor
  · intro hagree
    by_contra hrec
    exact not_readPathsAgree hw hrec hagree
  · intro hrec
    exact readPathsAgree_of_recovered hw hrec

theorem thirtyCells_readPathsAgree : ∃ file, Written (5, 3, 2) (3, 2, 2) file ∧ ReadPathsAgree (5, 3, 2) (3, 2, 2) file := by
  have hfits : FitsHeader (fileLayout 5 3 2 3 2 2 (by decide) (by decide) (by decide)) := by
    unfold FitsHeader fileLayout
    norm_num
  have hdims : orient true thirtyCells.dims = (fileLayout 5 3 2 3 2 2 (by decide) (by decide) (by decide)).dims := rfl
  obtain ⟨file, hfile⟩ := writePfb_ok ⟨0, 0, 0, 0, 0, 0⟩ hdims hfits
  have hw : Written (5, 3, 2) (3, 2, 2) file := ⟨_, .dim3 thirtyCells, true, thirtyCells, rfl, hfile⟩
  refine ⟨file, hw, ?_⟩
  rw [readPathsAgree_iff_recovered (by decide) (by decide) (by decide) hw]
  unfold Recovered firstSize
  norm_num

/-- Five cells along `x`, in blocks of two, one, one and one cells. -/
def fiveCells : NdArray Word := ⟨(1, 1, 5), fun c _ => UInt8.ofNat c.2.2.toNat⟩

theorem fiveCells_not_readPathsAgree :
    ∃ file, writePfb ⟨0, 0, 0, 0, 0, 0⟩ (.dim3 fiveCells) 4 1 1 true = .ok file ∧ Written (5, 1, 1) (4, 1, 1) file ∧
      ¬ ReadPathsAgree (5, 1, 1) (4, 1, 1) file := by
  have hfits : FitsHeader (fileLayout 5 1 1 4 1 1 (by decide) (by decide) (by decide)) := by
    unfold FitsHeader fileLayout
    norm_num
  have hdims : orient true fiveCells.dims = (fileLayout 5 1 1 4 1 1 (by decide) (by decide) (by decide)).dims := rfl
  obtain ⟨file, hfile⟩ := writePfb_ok ⟨0, 0, 0, 0, 0, 0⟩ hdims hfits
  have hw : Written (fileLayout 5 1 1 4 1 1 (by decide) (by decide) (by decide)).dims
      (fileLayout 5 1 1 4 1 1 (by decide) (by decide) (by decide)).counts file :=
    ⟨_, .dim3 fiveCells, true, fiveCells, rfl, hfile⟩
  refine ⟨file, hfile, hw, not_readPathsAgree hw ?_⟩
  unfold Recovered
  decide

end ParFlow.Pfb
