import ParFlow.Pfb.WriteSpec

/-! The file as a whole: every subgrid header and every word stands where the layout puts it. -/

namespace ParFlow.Pfb

open ByteFile ExceptLoop NdArray

/-- The sizes of an array and numbers of subgrids that leave none of them empty. -/
structure FileLayout where
  nx : ℤ
  ny : ℤ
  nz : ℤ
  p : ℤ
  q : ℤ
  r : ℤ
  fits : Fits (domainGrid nx ny nz) (p, q, r)

/-- The layout of an array for `1 ≤ p ≤ nx` and so on. -/
def fileLayout (nx ny nz p q r : ℤ) (hp : 1 ≤ p ∧ p ≤ nx) (hq : 1 ≤ q ∧ q ≤ ny) (hr : 1 ≤ r ∧ r ≤ nz) : FileLayout :=
  ⟨nx, ny, nz, p, q, r, ⟨Axis.forall.mpr ⟨hp.1, hq.1, hr.1⟩, Axis.forall.mpr ⟨hp.2, hq.2, hr.2⟩⟩⟩

namespace FileLayout

variable (L : FileLayout)

def dims : Cell := (L.nx, L.ny, L.nz)

def count : ℕ := (L.p * L.q * L.r).toNat

def start (k : ℕ) : Cell := subgridStart L.nx L.ny L.nz L.p L.q L.r k

def shape (k : ℕ) : Cell := subgridShape L.nx L.ny L.nz L.p L.q L.r k

def offset (k : ℕ) : ℤ := dataOffset (subgridShape L.nx L.ny L.nz L.p L.q L.r) k

theorem counts_pos : 0 < L.p ∧ 0 < L.q ∧ 0 < L.r := Axis.forall.mp L.fits.pos

theorem dims_pos : 0 < L.nx ∧ 0 < L.ny ∧ 0 < L.nz := by
  obtain ⟨hp, hq, hr⟩ := L.counts_pos
  obtain ⟨hx, hy, hz⟩ := Axis.forall.mp L.fits.le
  exact ⟨hp.trans_le hx, hq.trans_le hy, hr.trans_le hz⟩

theorem count_eq : (L.count : ℤ) = L.p * L.q * L.r := by
  obtain ⟨hp, hq, hr⟩ := L.counts_pos
  exact Int.toNat_of_nonneg (by positivity)

/-- The block of a subgrid. -/
def block (k : ℕ) : Subgrid :=
  blockAt (domainGrid L.nx L.ny L.nz) (L.p, L.q, L.r) (getSubgridLoc k L.p L.q L.r)

theorem record_block (k : ℕ) : record (L.block k) = (L.start k, L.shape k) := by
  obtain ⟨hp, hq, hr⟩ := L.counts_pos
  obtain ⟨hx, hy, hz⟩ := L.dims_pos
  exact record_blockAt hp.le hq.le hr.le hx.le hy.le hz.le

variable {L} {k j : ℕ} {c : Cell}

theorem shape_pos (k : ℕ) : 0 < (L.shape k).1 ∧ 0 < (L.shape k).2.1 ∧ 0 < (L.shape k).2.2 := by
  have hne := L.fits.nonEmpty_blockAt (getSubgridLoc k L.p L.q L.r)
  rw [← show (record (L.block k)).2 = L.shape k by rw [record_block]]
  exact hne

theorem mem_block_iff : c ∈ (L.block k).cells ↔
    InDims (L.shape k) (c.1 - (L.start k).1, c.2.1 - (L.start k).2.1, c.2.2 - (L.start k).2.2) := by
  have hs : (record (L.block k)).1 = L.start k := by rw [record_block]
  have hn : (record (L.block k)).2 = L.shape k := by rw [record_block]
  rw [Subregion.mem_cells_iff, ← hs, ← hn]
  simp only [record, InDims]
  omega

theorem mem_domain_iff : c ∈ (domainGrid L.nx L.ny L.nz).cells ↔ InDims L.dims c := by
  rw [Subregion.mem_cells_iff]
  simp only [domainGrid, newSubgrid, InDims, dims]
  omega

theorem loc_spec (hk : k < L.count) : InLayout (L.p, L.q, L.r) (getSubgridLoc k L.p L.q L.r) ∧
    pqrToProcess (getSubgridLoc k L.p L.q L.r).1 (getSubgridLoc k L.p L.q L.r).2.1 (getSubgridLoc k L.p L.q L.r).2.2
      L.p L.q L.r = k := by
  have hc := L.count_eq
  exact getSubgridLoc_spec L.counts_pos.1 L.counts_pos.2.1 ⟨Int.natCast_nonneg k, by omega⟩

/-- The subgrid lies in the array. -/
theorem bounds (hk : k < L.count) :
    (0 ≤ (L.start k).1 ∧ 0 ≤ (L.shape k).1 ∧ (L.start k).1 + (L.shape k).1 ≤ L.nx) ∧
    (0 ≤ (L.start k).2.1 ∧ 0 ≤ (L.shape k).2.1 ∧ (L.start k).2.1 + (L.shape k).2.1 ≤ L.ny) ∧
    0 ≤ (L.start k).2.2 ∧ 0 ≤ (L.shape k).2.2 ∧ (L.start k).2.2 + (L.shape k).2.2 ≤ L.nz := by
  have hpos := L.shape_pos k
  have hin : ∀ c ∈ (L.block k).cells, InDims L.dims c := by
    intro c hc
    exact mem_domain_iff.mp (L.fits.exists_mem_blockAt_iff.mp ⟨_, (loc_spec hk).1, hc⟩)
  have hlo := hin (L.start k) (mem_block_iff.mpr (by simp only [InDims]; omega))
  have hhi := hin ((L.start k).1 + (L.shape k).1 - 1, (L.start k).2.1 + (L.shape k).2.1 - 1,
    (L.start k).2.2 + (L.shape k).2.2 - 1) (mem_block_iff.mpr (by simp only [InDims]; omega))
  simp only [InDims, dims] at hlo hhi
  omega

/-- Every cell lies in a subgrid. -/
theorem exists_subgrid (hc : InDims L.dims c) : ∃ k < L.count,
    InDims (L.shape k) (c.1 - (L.start k).1, c.2.1 - (L.start k).2.1, c.2.2 - (L.start k).2.2) := by
  obtain ⟨d, hd, hmem⟩ := L.fits.exists_mem_blockAt_iff.mpr (mem_domain_iff.mpr hc)
  have h0 : 0 ≤ pqrToProcess d.1 d.2.1 d.2.2 L.p L.q L.r := (process_bounds hd).1
  have h1 : pqrToProcess d.1 d.2.1 d.2.2 L.p L.q L.r < L.p * L.q * L.r := (process_bounds hd).2
  have hcount := L.count_eq
  refine ⟨(pqrToProcess d.1 d.2.1 d.2.2 L.p L.q L.r).toNat, by omega, mem_block_iff.mp ?_⟩
  have hspec := loc_spec (L := L) (k := (pqrToProcess d.1 d.2.1 d.2.2 L.p L.q L.r).toNat) (by omega)
  rw [Int.toNat_of_nonneg h0] at hspec
  unfold block
  rw [Int.toNat_of_nonneg h0, processes_inj hspec.1 hd hspec.2]
  exact hmem

theorem subgrid_unique (hk : k < L.count) (hj : j < L.count) (hck : c ∈ (L.block k).cells) (hcj : c ∈ (L.block j).cells) :
    k = j := by
  have hloc := L.fits.position_unique hck hcj
  have h₁ := (loc_spec hk).2
  have h₂ := (loc_spec hj).2
  rw [hloc] at h₁
  exact_mod_cast h₁.symm.trans h₂

theorem offset_zero (L : FileLayout) : L.offset 0 = 100 := rfl

theorem offset_succ (L : FileLayout) (k : ℕ) : L.offset (k + 1) = L.offset k + 8 * volume (L.shape k) + 36 := by
  unfold offset
  rw [dataOffset_succ]
  show _ = _ + 8 * volume (subgridShape L.nx L.ny L.nz L.p L.q L.r k) + 36
  ring

theorem volume_pos (L : FileLayout) (k : ℕ) : 0 < volume (L.shape k) := by
  obtain ⟨hx, hy, hz⟩ := L.shape_pos k
  exact mul_pos (mul_pos hx hy) hz

theorem offset_le (hjk : j ≤ k) : L.offset j ≤ L.offset k := by
  induction k, hjk using Nat.le_induction with
  | base => exact le_rfl
  | succ k _ ih =>
    have := L.volume_pos k
    rw [offset_succ]
    omega

theorem info_eq (L : FileLayout) : precalculateSubgridInfo L.nx L.ny L.nz L.p L.q L.r =
    { subgridOffsets := (List.range L.count).map L.offset
      subgridLocs := (List.range L.count).map fun n : ℕ => getSubgridLoc n L.p L.q L.r
      subgridBeginIdxs := (List.range L.count).map L.start
      subgridShapes := (List.range L.count).map L.shape } :=
  precalculateSubgridInfo_eq L.nx L.ny L.nz L.p L.q L.r

end FileLayout

/-- The file has this layout, and the value of every cell at its place. -/
structure IsPfb (L : FileLayout) (sp : Spacing) (vals : Cell → Word) (file : File) : Prop where
  header : readHeader file = .ok ⟨sp.x, sp.y, sp.z, L.nx, L.ny, L.nz, sp.dx, sp.dy, sp.dz, L.p * L.q * L.r⟩
  record : ∀ k < L.count, readSubgridHeader file (L.offset k - 36) = .ok (L.start k, L.shape k)
  size : (L.offset L.count - 36).toNat ≤ file.size
  data : ∀ k < L.count, ∀ c, InDims (L.shape k) c → file.wordAt (L.offset k + 8 * fortranIndex (L.shape k) c).toNat =
    (vals ((L.start k).1 + c.1, (L.start k).2.1 + c.2.1, (L.start k).2.2 + c.2.2)).byteswap

/-! ## The loop of the writer -/

section Writer

variable {L : FileLayout} {sp : Spacing} {zFirst : Bool} {array : NdArray Word}

theorem readSubgridHeader_congr {file g : File} {n : ℕ} {off : ℤ} {r : Cell × Cell} (h : file.AgreeBelow g n)
    (hoff : off.toNat + 36 ≤ n) (hsize : g.size ≤ file.size) (hr : readSubgridHeader g off = .ok r) :
    readSubgridHeader file off = .ok r := by
  unfold readSubgridHeader at hr ⊢
  simp only at hr ⊢
  split_ifs at hr with hle
  rw [if_pos (by omega), ← hr, h.bytesAt_eq (by omega), h.bytesAt_eq (by omega), h.bytesAt_eq (by omega),
    h.bytesAt_eq (by omega), h.bytesAt_eq (by omega), h.bytesAt_eq (by omega)]

/-- The file after the first `k` subgrids, `file₀` being the file with the header only. -/
structure WriteInv (L : FileLayout) (zFirst : Bool) (array : NdArray Word) (file₀ : File) (k : ℕ) (st : File × ℤ) : Prop where
  pos : st.2 = L.offset k - 36
  size : st.1.size = st.2.toNat
  header : st.1.AgreeBelow file₀ 64
  record : ∀ j < k, readSubgridHeader st.1 (L.offset j - 36) = .ok (L.start j, L.shape j)
  data : ∀ j < k, ∀ c, InDims (L.shape j) c → st.1.wordAt (L.offset j + 8 * fortranIndex (L.shape j) c).toNat =
    (sourceValue zFirst array (L.start j) (L.shape j) c).byteswap

theorem WriteInv.step {file₀ : File} {k : ℕ} {st st' : File × ℤ} (h : WriteInv L zFirst array file₀ k st)
    (hstep : writeSubgrid zFirst array st (L.offset k, L.start k, L.shape k) = .ok st') :
    WriteInv L zFirst array file₀ (k + 1) st' := by
  have hle : 100 ≤ L.offset k := L.offset_zero ▸ L.offset_le (Nat.zero_le k)
  have hpos := h.pos
  obtain ⟨hpos', hsize', hagree, hrecord, hdata⟩ := writeSubgrid_spec (L.shape_pos k) (by omega) (by omega) h.size hstep
  have hvol := L.volume_pos k
  -- what the earlier subgrids left lies below the position
  have hbefore : ∀ j < k, L.offset j + 8 * volume (L.shape j) ≤ st.2 := by
    intro j hj
    have := L.offset_le (show j + 1 ≤ k from hj)
    rw [L.offset_succ] at this
    omega
  have hlow : ∀ j, 100 ≤ L.offset j := fun j => L.offset_zero ▸ L.offset_le (Nat.zero_le j)
  refine ⟨?_, hsize', (hagree.mono (by omega)).trans h.header, ?_, ?_⟩
  · rw [hpos', L.offset_succ]
    ring
  · intro j hj
    rcases Nat.lt_succ_iff_lt_or_eq.mp hj with hlt | rfl
    · have hvolj := L.volume_pos j
      have hb := hbefore j hlt
      have hlj := hlow j
      exact readSubgridHeader_congr hagree (by omega) (by rw [h.size, hsize']; omega) (h.record j hlt)
    · rw [← hpos]
      exact hrecord
  · intro j hj c hc
    rcases Nat.lt_succ_iff_lt_or_eq.mp hj with hlt | rfl
    · have hidx := fortranIndex_bounds hc
      have hb := hbefore j hlt
      have hlj := hlow j
      rw [hagree.wordAt_eq (by omega)]
      exact h.data j hlt c hc
    · exact hdata c hc

/-- The rounds of `write_pfb`, by the number of the subgrid. -/
theorem writePfb_eq {array' : PfbArray} (harray : arrayShape zFirst array' = .ok (L.dims, array))
    (hfit : ∀ fd ∈ headerFields sp L.nx L.ny L.nz (L.p * L.q * L.r), fd.Fits) :
    writePfb sp array' L.p L.q L.r zFirst =
      ((List.range L.count).foldlM (fun st k => writeSubgrid zFirst array st (L.offset k, L.start k, L.shape k))
        (File.empty.write 0 ((headerFields sp L.nx L.ny L.nz (L.p * L.q * L.r)).flatMap Field.bytes), 64) >>= fun st =>
          pure st.1) := by
  unfold writePfb
  rw [bind_ok harray]
  show (packFields (headerFields sp L.nx L.ny L.nz (L.p * L.q * L.r)) >>= _) = _
  rw [bind_ok (packFields_eq hfit)]
  show (List.foldlM _ _ (List.zip (precalculateSubgridInfo L.nx L.ny L.nz L.p L.q L.r).subgridOffsets (List.zip
    (precalculateSubgridInfo L.nx L.ny L.nz L.p L.q L.r).subgridBeginIdxs
    (precalculateSubgridInfo L.nx L.ny L.nz L.p L.q L.r).subgridShapes)) >>= _) = _
  rw [L.info_eq, List.zip_map', List.zip_map', List.foldlM_map]

theorem fits_of_writePfb {array' : PfbArray} {file : File} (harray : arrayShape zFirst array' = .ok (L.dims, array))
    (h : writePfb sp array' L.p L.q L.r zFirst = .ok file) :
    ∀ fd ∈ headerFields sp L.nx L.ny L.nz (L.p * L.q * L.r), fd.Fits := by
  unfold writePfb at h
  rw [bind_ok harray] at h
  obtain ⟨head, hhead, -⟩ := exists_of_bind_ok h
  exact fits_of_packFields hhead

/-- Values of the subgrids are values of the cells, since each cell lies in one subgrid. -/
theorem exists_vals (L : FileLayout) (value : ℕ → Cell → Word) : ∃ vals : Cell → Word, ∀ k < L.count, ∀ c,
    InDims (L.shape k) c → vals ((L.start k).1 + c.1, (L.start k).2.1 + c.2.1, (L.start k).2.2 + c.2.2) = value k c := by
  have hchoose : ∀ x : Cell, ∃ w : Word, ∀ k < L.count, x ∈ (L.block k).cells →
      w = value k (x.1 - (L.start k).1, x.2.1 - (L.start k).2.1, x.2.2 - (L.start k).2.2) := by
    intro x
    by_cases hx : ∃ k < L.count, x ∈ (L.block k).cells
    · obtain ⟨k, hk, hmem⟩ := hx
      refine ⟨value k (x.1 - (L.start k).1, x.2.1 - (L.start k).2.1, x.2.2 - (L.start k).2.2), ?_⟩
      intro j hj hmem'
      rw [FileLayout.subgrid_unique hk hj hmem hmem']
    · refine ⟨fun _ => 0, ?_⟩
      intro k hk hmem
      exact absurd ⟨k, hk, hmem⟩ hx
  choose vals hvals using hchoose
  refine ⟨vals, ?_⟩
  intro k hk c hc
  rw [hvals _ k hk (FileLayout.mem_block_iff.mpr (by simpa using hc))]
  simp

/-- Every file that `write_pfb` makes is a file of the layout. -/
theorem isPfb_of_writePfb {array' : PfbArray} {file : File} (harray : arrayShape zFirst array' = .ok (L.dims, array))
    (h : writePfb sp array' L.p L.q L.r zFirst = .ok file) : ∃ vals, IsPfb L sp vals file ∧ ∀ k < L.count, ∀ c,
      InDims (L.shape k) c → vals ((L.start k).1 + c.1, (L.start k).2.1 + c.2.1, (L.start k).2.2 + c.2.2) =
        sourceValue zFirst array (L.start k) (L.shape k) c := by
  have hfit := fits_of_writePfb harray h
  rw [writePfb_eq harray hfit] at h
  obtain ⟨st, hst, hfile⟩ := exists_of_bind_ok h
  have hinv := inv_of_foldlM_range (WriteInv L zFirst array
    (File.empty.write 0 ((headerFields sp L.nx L.ny L.nz (L.p * L.q * L.r)).flatMap Field.bytes))) ?_ ?_ hst
  · cases hfile
    have hle : 100 ≤ L.offset L.count := L.offset_zero ▸ L.offset_le (Nat.zero_le _)
    have hpos := hinv.pos
    have hsize := hinv.size
    obtain ⟨vals, hvals⟩ := exists_vals L fun k => sourceValue zFirst array (L.start k) (L.shape k)
    refine ⟨vals, ⟨readHeader_eq hfit hinv.header (by omega), hinv.record, by omega, ?_⟩, hvals⟩
    intro k hk c hc
    rw [hvals k hk c hc]
    exact hinv.data k hk c hc
  · refine ⟨rfl, ?_, fun _ _ => rfl, ?_, ?_⟩
    · show max 0 (0 + ((headerFields sp L.nx L.ny L.nz (L.p * L.q * L.r)).flatMap Field.bytes).length) = _
      rw [length_fields]
      rfl
    · intro j hj
      exact absurd hj (Nat.not_lt_zero j)
    · intro j hj
      exact absurd hj (Nat.not_lt_zero j)
  · intro k _ st st' hk hstep
    exact hk.step hstep

end Writer

end ParFlow.Pfb
