import ParFlow.Pfb.WrittenFile

/-! Reading back the whole array with the subgrid headers of the file. -/

namespace ParFlow.Pfb

open ByteFile ExceptLoop NdArray

/-- The order of the axes in memory. -/
def orient (zFirst : Bool) (c : Cell) : Cell := if zFirst then flipCell c else c

theorem orient_orient (zFirst : Bool) (c : Cell) : orient zFirst (orient zFirst c) = c := by
  cases zFirst <;> rfl

theorem inDims_orient (zFirst : Bool) {d c : Cell} : InDims (orient zFirst d) (orient zFirst c) ↔ InDims d c := by
  cases zFirst with
  | false => rfl
  | true =>
    simp only [orient, flipCell, InDims, if_true]
    omega

/-! ## The reader of a file -/

/-- The reader knows the subgrids of the layout. -/
structure LaysOut (L : FileLayout) (reader : ParflowBinaryReader) : Prop where
  dims : (reader.header.nx, reader.header.ny, reader.header.nz) = L.dims
  nSubgrids : reader.header.nSubgrids = L.p * L.q * L.r
  offsets : reader.info.subgridOffsets = (List.range L.count).map L.offset
  starts : reader.info.subgridBeginIdxs = (List.range L.count).map L.start
  shapes : reader.info.subgridShapes = (List.range L.count).map L.shape

theorem nth_map_range {β : Type} (f : ℕ → β) {n k : ℕ} (hk : k < n) : nth ((List.range n).map f) k = .ok (f k) := by
  unfold nth
  rw [List.getElem?_map, List.getElem?_range hk]
  rfl

section Reader

variable {L : FileLayout} {sp : Spacing} {vals : Cell → Word} {file : File} {reader : ParflowBinaryReader}

theorem ilocSubgrid_spec (hl : LaysOut L reader) (hf : IsPfb L sp vals reader.file) {k : ℕ} (hk : k < L.count) :
    ∃ b, ilocSubgrid reader k = .ok b ∧ b.dims = L.shape k ∧ ∀ c, InDims (L.shape k) c →
      b.get c = vals ((L.start k).1 + c.1, (L.start k).2.1 + c.2.1, (L.start k).2.2 + c.2.2) := by
  have hsize := hf.size
  have hnext := L.offset_le (show k + 1 ≤ L.count from hk)
  have hlow : 100 ≤ L.offset k := L.offset_zero ▸ L.offset_le (Nat.zero_le k)
  have hvol := L.volume_pos k
  rw [L.offset_succ] at hnext
  unfold ilocSubgrid
  rw [hl.offsets, hl.shapes, bind_ok (nth_map_range _ hk), bind_ok (nth_map_range _ hk), if_pos (by omega)]
  refine ⟨_, rfl, rfl, ?_⟩
  intro c hc
  show Word.byteswap (reader.file.wordAt (L.offset k + 8 * fortranIndex (L.shape k) c).toNat) = _
  rw [hf.data k hk c hc, Word.byteswap_byteswap]

/-- One subgrid is placed. -/
theorem placeSubgrid_spec (hl : LaysOut L reader) (hf : IsPfb L sp vals reader.file) {k : ℕ} (hk : k < L.count)
    {zFirst : Bool} {a : NdArray Word} (ha : a.dims = orient zFirst L.dims) :
    ∃ a', placeSubgrid reader zFirst a k = .ok a' ∧ a'.dims = a.dims ∧
      (∀ c ∈ (L.block k).cells, a'.get (orient zFirst c) = vals c) ∧
      ∀ c, c ∉ (L.block k).cells → a'.get (orient zFirst c) = a.get (orient zFirst c) := by
  obtain ⟨b, hb, hdims, hget⟩ := ilocSubgrid_spec hl hf hk
  obtain ⟨hx, hy, hz⟩ := L.bounds hk
  unfold placeSubgrid
  rw [hl.shapes, hl.starts, bind_ok (nth_map_range _ hk), bind_ok (nth_map_range _ hk), bind_ok hb]
  have hvalue : ∀ c ∈ (L.block k).cells,
      b.get (c.1 - (L.start k).1, c.2.1 - (L.start k).2.1, c.2.2 - (L.start k).2.2) = vals c := by
    intro c hc
    rw [hget _ (FileLayout.mem_block_iff.mp hc)]
    simp
  cases zFirst with
  | false =>
    obtain ⟨a', ha', hd, hin, hout⟩ := assign_block a b (L.start k)
      (by rw [hdims, ha]; exact hx) (by rw [hdims, ha]; exact hy) (by rw [hdims, ha]; exact hz)
    rw [hdims] at ha' hin hout
    refine ⟨a', ?_, hd, ?_, ?_⟩
    · show place a (L.start k) (L.shape k) b = _
      unfold place
      rw [ha']
    · intro c hc
      rw [← hvalue c hc]
      exact hin c (FileLayout.mem_block_iff.mp hc)
    · intro c hc
      exact hout c (mt FileLayout.mem_block_iff.mpr hc)
  | true =>
    have hflip : b.transpose.dims = flipCell (L.shape k) := by
      rw [← hdims]
      rfl
    obtain ⟨a', ha', hd, hin, hout⟩ := assign_block a b.transpose (flipCell (L.start k))
      (by rw [hflip, ha]; exact hz) (by rw [hflip, ha]; exact hy) (by rw [hflip, ha]; exact hx)
    rw [hflip] at ha' hin hout
    have hmem : ∀ c : Cell, c ∈ (L.block k).cells ↔ InDims (flipCell (L.shape k)) ((flipCell c).1 - (flipCell (L.start k)).1,
        (flipCell c).2.1 - (flipCell (L.start k)).2.1, (flipCell c).2.2 - (flipCell (L.start k)).2.2) := by
      intro c
      rw [FileLayout.mem_block_iff]
      exact (inDims_orient true).symm
    refine ⟨a', ?_, hd, ?_, ?_⟩
    · show place a (flipCell (L.start k)) (flipCell (L.shape k)) b.transpose = _
      unfold place
      rw [ha']
    · intro c hc
      rw [← hvalue c hc]
      exact hin (flipCell c) ((hmem c).mp hc)
    · intro c hc
      exact hout (flipCell c) (mt (hmem c).mpr hc)

/-- The whole array, whatever the new array held before. -/
theorem readAllSubgrids_spec (hl : LaysOut L reader) (hf : IsPfb L sp vals reader.file) (zFirst : Bool) (empty : Cell → Word) :
    ∃ a, readAllSubgrids reader zFirst empty = .ok a ∧ a.dims = orient zFirst L.dims ∧
      ∀ c, InDims L.dims c → a.get (orient zFirst c) = vals c := by
  have hn : reader.header.nSubgrids.toNat = L.count := by rw [hl.nSubgrids]; rfl
  have hrun : ∃ a, (List.range L.count).foldlM (placeSubgrid reader zFirst) ⟨orient zFirst L.dims, empty⟩ = .ok a ∧
      a.dims = orient zFirst L.dims ∧ ∀ j < L.count, ∀ c ∈ (L.block j).cells, a.get (orient zFirst c) = vals c := by
    apply foldlM_range fun k (a : NdArray Word) => a.dims = orient zFirst L.dims ∧
      ∀ j < k, ∀ c ∈ (L.block j).cells, a.get (orient zFirst c) = vals c
    · exact ⟨rfl, fun j hj => absurd hj (Nat.not_lt_zero j)⟩
    · intro k hk a hinv
      obtain ⟨a', ha', hd, hin, hout⟩ := placeSubgrid_spec hl hf hk hinv.1
      refine ⟨a', ha', hd.trans hinv.1, ?_⟩
      intro j hj c hc
      by_cases hck : c ∈ (L.block k).cells
      · exact hin c hck
      · have hjk : j ≠ k := by
          rintro rfl
          exact hck hc
        rw [hout c hck]
        exact hinv.2 j (by omega) c hc
  obtain ⟨a, ha, hdims, hget⟩ := hrun
  refine ⟨a, ?_, hdims, ?_⟩
  · unfold readAllSubgrids
    rw [hn, hl.dims]
    exact ha
  · intro c hc
    obtain ⟨k, hk, hck⟩ := L.exists_subgrid hc
    exact hget k hk c (FileLayout.mem_block_iff.mpr hck)

/-! ## Opening a file -/

/-- The number of subgrids along an axis that the reader takes from the first subgrid. -/
def inferredCount (n first : ℤ) : ℤ := ⌊(n : ℚ) / (first : ℚ) + (1 - 1 / 10 ^ 6)⌋

theorem inferCount_eq {n first : ℤ} (h : first ≠ 0) : inferCount n first = .ok (inferredCount n first) := if_neg h

theorem inferredCount_pos {n first : ℤ} (hf : 0 < first) (hn : first ≤ n) : 0 < inferredCount n first := by
  have hdiv : (1 : ℚ) ≤ (n : ℚ) / (first : ℚ) := by
    rw [le_div_iff₀ (by exact_mod_cast hf), one_mul]
    exact_mod_cast hn
  unfold inferredCount
  rw [Int.floor_pos]
  linarith

namespace FileLayout

/-- The numbers of subgrids that the reader of a file of the layout infers. -/
def inferred (L : FileLayout) : ℤ × ℤ × ℤ :=
  (inferredCount L.nx (L.shape 0).1, inferredCount L.ny (L.shape 0).2.1, inferredCount L.nz (L.shape 0).2.2)

theorem count_pos (L : FileLayout) : 0 < L.count := by
  obtain ⟨hp, hq, hr⟩ := L.counts_pos
  have := L.count_eq
  have : 0 < L.p * L.q * L.r := by positivity
  omega

theorem inferred_pos (L : FileLayout) : 0 < L.inferred.1 ∧ 0 < L.inferred.2.1 ∧ 0 < L.inferred.2.2 := by
  obtain ⟨hx, hy, hz⟩ := L.shape_pos 0
  obtain ⟨bx, bY, bz⟩ := L.bounds L.count_pos
  exact ⟨inferredCount_pos hx (by omega), inferredCount_pos hy (by omega), inferredCount_pos hz (by omega)⟩

end FileLayout

theorem withInfo_ok (file : File) (header : Header) (p q r : ℤ) {info : SubgridInfo} (h : info.subgridShapes ≠ []) :
    ∃ reader, withInfo file header p q r info = .ok reader ∧ reader.file = file ∧ reader.header = header ∧
      reader.p = p ∧ reader.q = q ∧ reader.r = r ∧ reader.info = info := by
  have hchunks : ∃ chunks, computeChunks p q r info.subgridShapes = .ok chunks := ⟨_, if_neg h⟩
  obtain ⟨chunks, hchunks⟩ := hchunks
  unfold withInfo
  rw [bind_ok hchunks]
  exact ⟨_, rfl, rfl, rfl, rfl, rfl, rfl, rfl⟩

/-- The header of a file of the layout. -/
def FileLayout.header (L : FileLayout) (sp : Spacing) : Header :=
  ⟨sp.x, sp.y, sp.z, L.nx, L.ny, L.nz, sp.dx, sp.dy, sp.dz, L.p * L.q * L.r⟩

/-- The reader before it reads subgrid headers. -/
theorem newReader_eq (hf : IsPfb L sp vals file) (readSgInfo : Bool) : newReader file readSgInfo =
    (computeSubgridInfo file (L.header sp) L.inferred.1 L.inferred.2.1 L.inferred.2.2 >>= fun reader =>
      if readSgInfo then readSubgridInfo reader else pure reader) := by
  obtain ⟨hx, hy, hz⟩ := L.shape_pos 0
  have hfirst : readSubgridHeader file 64 = .ok (L.start 0, L.shape 0) := hf.record 0 L.count_pos
  unfold newReader
  rw [bind_ok hf.header, bind_ok hfirst]
  show (inferCount L.nx (L.shape 0).1 >>= _) = _
  rw [bind_ok (inferCount_eq hx.ne')]
  show (inferCount L.ny (L.shape 0).2.1 >>= _) = _
  rw [bind_ok (inferCount_eq hy.ne')]
  show (inferCount L.nz (L.shape 0).2.2 >>= _) = _
  rw [bind_ok (inferCount_eq hz.ne')]
  rfl

theorem computeSubgridInfo_ok (L : FileLayout) (sp : Spacing) (file : File) :
    ∃ reader, computeSubgridInfo file (L.header sp) L.inferred.1 L.inferred.2.1 L.inferred.2.2 = .ok reader ∧
      reader.file = file ∧ reader.header = L.header sp ∧ reader.p = L.inferred.1 ∧ reader.q = L.inferred.2.1 ∧
      reader.r = L.inferred.2.2 ∧
      reader.info = precalculateSubgridInfo L.nx L.ny L.nz L.inferred.1 L.inferred.2.1 L.inferred.2.2 := by
  apply withInfo_ok
  obtain ⟨hp, hq, hr⟩ := L.inferred_pos
  rw [precalculateSubgridInfo_eq]
  have hpos : 0 < L.inferred.1 * L.inferred.2.1 * L.inferred.2.2 := by positivity
  intro hnil
  have hlen := congrArg List.length hnil
  simp only [infoUpTo, List.length_map, List.length_range, List.length_nil] at hlen
  omega

/-- `read_subgrid_info` finds the subgrids of the layout. -/
theorem readSubgridInfo_spec (hf : IsPfb L sp vals reader.file) (hh : reader.header = L.header sp) :
    ∃ reader', readSubgridInfo reader = .ok reader' ∧ LaysOut L reader' ∧ reader'.file = reader.file ∧
      reader'.header = reader.header ∧ reader'.p = reader.p ∧ reader'.q = reader.q ∧ reader'.r = reader.r := by
  have hn : IntLoop.upto 0 reader.header.nSubgrids = (List.range L.count).map fun k : ℕ => (k : ℤ) := by
    rw [IntLoop.upto_zero_eq, hh]
    rfl
  have hrun : ∃ st, (List.range L.count).foldlM (fun st k => readInfoStep reader.file reader.p reader.q reader.r st (k : ℕ))
      ((64, ⟨[], [], [], []⟩) : ℤ × SubgridInfo) = .ok st ∧ st.1 = L.offset L.count - 36 ∧
      st.2.subgridOffsets = (List.range L.count).map L.offset ∧ st.2.subgridBeginIdxs = (List.range L.count).map L.start ∧
      st.2.subgridShapes = (List.range L.count).map L.shape := by
    apply foldlM_range fun k (st : ℤ × SubgridInfo) => st.1 = L.offset k - 36 ∧
      st.2.subgridOffsets = (List.range k).map L.offset ∧ st.2.subgridBeginIdxs = (List.range k).map L.start ∧
      st.2.subgridShapes = (List.range k).map L.shape
    · exact ⟨rfl, rfl, rfl, rfl⟩
    · intro k hk st hinv
      obtain ⟨hoff, hoffs, hstarts, hshapes⟩ := hinv
      have hrec := hf.record k hk
      rw [← hoff] at hrec
      unfold readInfoStep
      rw [bind_ok hrec]
      refine ⟨_, rfl, ?_, ?_, ?_, ?_⟩
      · show st.1 + 36 + volume (L.shape k) * 8 = _
        rw [hoff, L.offset_succ]
        ring
      · show st.2.subgridOffsets ++ [st.1 + 36] = _
        rw [hoffs, hoff, List.range_succ, List.map_append, sub_add_cancel]
        rfl
      · show st.2.subgridBeginIdxs ++ [L.start k] = _
        rw [hstarts, List.range_succ, List.map_append]
        rfl
      · show st.2.subgridShapes ++ [L.shape k] = _
        rw [hshapes, List.range_succ, List.map_append]
        rfl
  obtain ⟨st, hst, -, hoffs, hstarts, hshapes⟩ := hrun
  have hne : st.2.subgridShapes ≠ [] := by
    intro hnil
    have hlen := congrArg List.length (hshapes.symm.trans hnil)
    rw [List.length_map, List.length_range] at hlen
    have := L.count_pos
    simp at hlen
    omega
  obtain ⟨reader', hr', hfile, hhead, hp, hq, hr, hinfo⟩ :=
    withInfo_ok reader.file reader.header reader.p reader.q reader.r hne
  refine ⟨reader', ?_, ?_, hfile, hhead, hp, hq, hr⟩
  · unfold readSubgridInfo
    rw [hn, List.foldlM_map, bind_ok hst]
    exact hr'
  · rw [hh] at hhead
    exact ⟨by rw [hhead]; rfl, by rw [hhead]; rfl, by rw [hinfo, hoffs], by rw [hinfo, hstarts], by rw [hinfo, hshapes]⟩

theorem newReader_laysOut (hf : IsPfb L sp vals file) : ∃ reader, newReader file true = .ok reader ∧ LaysOut L reader ∧
    reader.file = file ∧ reader.header = L.header sp ∧ reader.p = L.inferred.1 ∧ reader.q = L.inferred.2.1 ∧
    reader.r = L.inferred.2.2 := by
  obtain ⟨reader, hr, hfile, hhead, hp, hq, hrr, -⟩ := computeSubgridInfo_ok L sp file
  rw [newReader_eq hf, bind_ok hr]
  subst hfile
  obtain ⟨reader', hr', hl, hfile', hhead', hp', hq', hrr'⟩ := readSubgridInfo_spec hf hhead
  exact ⟨reader', hr', hl, hfile', hhead'.trans hhead, hp'.trans hp, hq'.trans hq, hrr'.trans hrr⟩

/-! ## Writing and reading back -/

section RoundTrip

variable {zFirst : Bool} {a : NdArray Word}

theorem dims_sourceBlock (ha : orient zFirst a.dims = L.dims) {k : ℕ} (hk : k < L.count) :
    (sourceBlock zFirst a (L.start k) (L.shape k)).dims = L.shape k ∧ ∀ c,
      (sourceBlock zFirst a (L.start k) (L.shape k)).get c =
        a.get (orient zFirst ((L.start k).1 + c.1, (L.start k).2.1 + c.2.1, (L.start k).2.2 + c.2.2)) := by
  obtain ⟨hx, hy, hz⟩ := L.bounds hk
  have hdims : a.dims = orient zFirst L.dims := by rw [← ha, orient_orient]
  cases zFirst with
  | false =>
    simp only [sourceBlock, slice, hdims, orient, Bool.false_eq_true, if_false, FileLayout.dims]
    rw [sliceBounds_some hx.1 hx.2.1 hx.2.2, sliceBounds_some hy.1 hy.2.1 hy.2.2, sliceBounds_some hz.1 hz.2.1 hz.2.2]
    exact ⟨rfl, fun _ => rfl⟩
  | true =>
    simp only [sourceBlock, slice, transpose, hdims, orient, flipCell, if_true, FileLayout.dims]
    rw [sliceBounds_some hx.1 hx.2.1 hx.2.2, sliceBounds_some hy.1 hy.2.1 hy.2.2, sliceBounds_some hz.1 hz.2.1 hz.2.2]
    exact ⟨rfl, fun _ => rfl⟩

theorem sourceValue_eq (ha : orient zFirst a.dims = L.dims) {k : ℕ} (hk : k < L.count) {c : Cell} (hc : InDims (L.shape k) c) :
    sourceValue zFirst a (L.start k) (L.shape k) c =
      a.get (orient zFirst ((L.start k).1 + c.1, (L.start k).2.1 + c.2.1, (L.start k).2.2 + c.2.2)) := by
  obtain ⟨hdims, hget⟩ := dims_sourceBlock ha hk
  obtain ⟨hx, hy, hz⟩ := hc
  unfold sourceValue
  simp only [hdims, repeatIndex_eq hx, repeatIndex_eq hy, repeatIndex_eq hz]
  exact hget c

/-- The sizes of the array and the number of subgrids have 32 bits in the file. -/
def FitsHeader (L : FileLayout) : Prop := L.nx < 2 ^ 31 ∧ L.ny < 2 ^ 31 ∧ L.nz < 2 ^ 31 ∧ L.p * L.q * L.r < 2 ^ 31

theorem writePfb_ok (sp : Spacing) (ha : orient zFirst a.dims = L.dims) (hL : FitsHeader L) :
    ∃ file, writePfb sp (.dim3 a) L.p L.q L.r zFirst = .ok file := by
  have harray : arrayShape zFirst (.dim3 a) = .ok (L.dims, a) := by
    rw [← ha]
    rfl
  obtain ⟨hx, hy, hz⟩ := L.dims_pos
  obtain ⟨hX, hY, hZ, hN⟩ := hL
  have hcount := L.count_eq
  have hfit : ∀ fd ∈ headerFields sp L.nx L.ny L.nz (L.p * L.q * L.r), fd.Fits := by
    simp only [headerFields, List.mem_cons, List.not_mem_nil, or_false, forall_eq_or_imp, forall_eq, Field.Fits, true_and]
    omega
  rw [writePfb_eq harray hfit]
  have hrun : ∃ st, (List.range L.count).foldlM (fun st k => writeSubgrid zFirst a st (L.offset k, L.start k, L.shape k))
      (File.empty.write 0 ((headerFields sp L.nx L.ny L.nz (L.p * L.q * L.r)).flatMap Field.bytes), 64) = .ok st ∧ True := by
    apply foldlM_range fun _ (_ : File × ℤ) => True
    · trivial
    · intro k hk st _
      obtain ⟨bx, bY, bz⟩ := L.bounds hk
      have hrec : ∀ fd ∈ recordFields (L.start k) (L.shape k), fd.Fits := by
        simp only [recordFields, List.map_cons, List.map_nil, List.mem_cons, List.not_mem_nil, or_false, forall_eq_or_imp,
          forall_eq, Field.Fits]
        omega
      obtain ⟨st', hst'⟩ := writeSubgrid_ok st (L.offset k) (L.shape_pos k) hrec (dims_sourceBlock ha hk).1
      exact ⟨st', hst', trivial⟩
  obtain ⟨st, hst, -⟩ := hrun
  rw [bind_ok hst]
  exact ⟨_, rfl⟩

end RoundTrip

end Reader

/-- An array that was written is read back, whatever the new array held before. The second part
says which arrays can be written. -/
theorem readPfb_writePfb (sp : Spacing) (a : NdArray Word) (p q r : ℤ) (zFirst : Bool)
    (hp : 1 ≤ p ∧ p ≤ (orient zFirst a.dims).1) (hq : 1 ≤ q ∧ q ≤ (orient zFirst a.dims).2.1)
    (hr : 1 ≤ r ∧ r ≤ (orient zFirst a.dims).2.2) :
    (∀ file, writePfb sp (.dim3 a) p q r zFirst = .ok file → ∀ empty : Cell → Word,
      ∃ a', readPfb file none zFirst true empty = .ok a' ∧ a'.Same a) ∧
    (FitsHeader (fileLayout _ _ _ p q r hp hq hr) → ∃ file, writePfb sp (.dim3 a) p q r zFirst = .ok file) := by
  have ha : orient zFirst a.dims = (fileLayout _ _ _ p q r hp hq hr).dims := rfl
  have hdims : a.dims = orient zFirst (fileLayout _ _ _ p q r hp hq hr).dims := by rw [← ha, orient_orient]
  have harray : arrayShape zFirst (.dim3 a) = .ok ((fileLayout _ _ _ p q r hp hq hr).dims, a) := rfl
  constructor
  · intro file hfile empty
    obtain ⟨vals, hf, hvals⟩ := isPfb_of_writePfb harray hfile
    obtain ⟨reader, hreader, hl, rfl, -⟩ := newReader_laysOut hf
    obtain ⟨a', ha', hd, hget⟩ := readAllSubgrids_spec hl hf zFirst empty
    refine ⟨a', (bind_ok hreader _).trans ha', hd.trans hdims.symm, ?_⟩
    intro c hc
    rw [hd, ← orient_orient zFirst c, inDims_orient] at hc
    obtain ⟨k, hk, hck⟩ := FileLayout.exists_subgrid hc
    have hval := hvals k hk _ hck
    rw [sourceValue_eq ha hk hck] at hval
    simp only [add_sub_cancel] at hval
    rw [← orient_orient zFirst c, hget _ hc]
    exact hval
  · intro hL
    have hok := writePfb_ok (L := fileLayout _ _ _ p q r hp hq hr) sp ha hL
    exact hok

/-- A grid of five cells along `x`, three along `y` and two along `z`. -/
def thirtyCells : NdArray Word := ⟨(2, 3, 5), fun c _ => UInt8.ofNat (c.1 + 2 * c.2.1).toNat⟩

theorem thirtyCells_readPfb : ∃ file, writePfb ⟨0, 0, 0, 0, 0, 0⟩ (.dim3 thirtyCells) 3 2 2 true = .ok file ∧
    ∃ a', readPfb file none true true (fun _ _ => 0) = .ok a' ∧ a'.Same thirtyCells := by
  have h := readPfb_writePfb ⟨0, 0, 0, 0, 0, 0⟩ thirtyCells 3 2 2 true (by decide) (by decide) (by decide)
  have hfits : FitsHeader (fileLayout 5 3 2 3 2 2 (by decide) (by decide) (by decide)) := by
    unfold FitsHeader fileLayout
    norm_num
  obtain ⟨file, hfile⟩ := h.2 hfits
  exact ⟨file, hfile, h.1 file hfile _⟩

end ParFlow.Pfb
