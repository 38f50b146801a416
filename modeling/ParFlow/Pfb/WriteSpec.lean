import ParFlow.Lib.ExceptLoop
import ParFlow.Pfb.SubgridInfo
import ParFlow.Pfb.FileDefs

/-! What stands in a file that `write_pfb` has written, in terms of what the reader sees. -/

namespace ParFlow.Pfb

open ByteFile ExceptLoop

/-! ## Fields -/

def Field.bytes : Field Word → List UInt8
  | .int v => beBytes (v % 2 ^ 32).toNat
  | .double w => List.ofFn w.byteswap

def Field.width : Field Word → ℕ
  | .int _ => 4
  | .double _ => 8

/-- An integer of a field has 32 bits. -/
def Field.Fits : Field Word → Prop
  | .int v => -2 ^ 31 ≤ v ∧ v < 2 ^ 31
  | .double _ => True

theorem Field.length_bytes (fd : Field Word) : fd.bytes.length = fd.width := by
  cases fd with
  | int v => rfl
  | double w => exact List.length_ofFn

theorem length_fields (fields : List (Field Word)) : (fields.flatMap Field.bytes).length = (fields.map Field.width).sum := by
  rw [List.length_flatMap]
  congr 1
  apply List.map_congr_left
  intro fd _
  exact fd.length_bytes

theorem Field.pack_eq {fd : Field Word} (h : fd.Fits) : fd.pack = .ok fd.bytes := by
  cases fd with
  | int v =>
    simp only [Field.pack, packInt_eq h]
    rfl
  | double w => rfl

theorem Field.fits_of_pack {fd : Field Word} {bs : List UInt8} (h : fd.pack = .ok bs) : fd.Fits := by
  cases fd with
  | int v =>
    by_contra hv
    have hnone : packInt v = none := if_neg hv
    simp only [Field.pack, hnone] at h
    exact absurd h (by simp)
  | double w => trivial

theorem packFields_eq {fields : List (Field Word)} (h : ∀ fd ∈ fields, fd.Fits) :
    packFields fields = .ok (fields.flatMap Field.bytes) := by
  induction fields with
  | nil => rfl
  | cons fd fields ih =>
    rw [packFields, bind_ok (Field.pack_eq (h fd List.mem_cons_self)),
      bind_ok (ih fun g hg => h g (List.mem_cons_of_mem _ hg)), List.flatMap_cons]
    rfl

theorem fits_of_packFields {fields : List (Field Word)} {bs : List UInt8} (h : packFields fields = .ok bs) :
    ∀ fd ∈ fields, fd.Fits := by
  induction fields generalizing bs with
  | nil =>
    intro fd hfd
    exact absurd hfd List.not_mem_nil
  | cons fd fields ih =>
    obtain ⟨b, hb, h₁⟩ := exists_of_bind_ok h
    obtain ⟨rest, hrest, -⟩ := exists_of_bind_ok h₁
    intro g hg
    rcases List.mem_cons.mp hg with rfl | hmem
    · exact Field.fits_of_pack hb
    · exact ih hrest g hmem

/-- The field stands in the file at a position. -/
def FieldAt (file : File) (off : ℕ) (fd : Field Word) : Prop :=
  off + fd.width ≤ file.size ∧ file.bytesAt off fd.width = fd.bytes

theorem fieldAt_write (f : File) (off : ℕ) (pre post : List (Field Word)) (fd : Field Word) :
    FieldAt (f.write off ((pre ++ fd :: post).flatMap Field.bytes)) (off + (pre.map Field.width).sum) fd := by
  constructor
  · show _ ≤ max f.size (off + ((pre ++ fd :: post).flatMap Field.bytes).length)
    rw [length_fields, List.map_append, List.sum_append, List.map_cons, List.sum_cons]
    omega
  · rw [← length_fields, ← fd.length_bytes, List.flatMap_append, List.flatMap_cons, ← List.append_assoc]
    exact File.bytesAt_write

theorem FieldAt.congr {file g : File} {off n : ℕ} {fd : Field Word} (h : FieldAt g off fd) (hg : file.AgreeBelow g n)
    (hn : off + fd.width ≤ n) (hsize : g.size ≤ file.size) : FieldAt file off fd :=
  ⟨h.1.trans hsize, (hg.bytesAt_eq hn).trans h.2⟩

theorem FieldAt.readInt {file : File} {off : ℕ} {v : ℤ} (h : FieldAt file off (.int v)) (hv : (Field.int v).Fits) :
    readInt file off = .ok v := by
  have hsize : off + 4 ≤ file.size := h.1
  have hread : file.read off 4 = some (beBytes (v % 2 ^ 32).toNat) := by
    unfold File.read
    rw [if_pos hsize]
    exact congrArg some h.2
  unfold Pfb.readInt
  rw [hread]
  show Except.ok (unpackInt _) = _
  rw [unpackInt_beBytes hv]

theorem FieldAt.readDouble {file : File} {off : ℕ} {w : Word} (h : FieldAt file off (.double w)) :
    readDouble file off = .ok w := by
  have hword : file.wordAt off = w.byteswap := by
    have hbytes : (List.range 8).map (fun i => file.get (off + i)) = List.ofFn w.byteswap := h.2
    funext i
    have hget := congrArg (fun l : List UInt8 => l[(i : ℕ)]?) hbytes
    simp only [List.getElem?_map, List.getElem?_range i.isLt, Option.map_some, List.getElem?_ofFn, i.isLt, dif_pos,
      Option.some.injEq] at hget
    exact hget
  have hsize : off + 8 ≤ file.size := h.1
  unfold Pfb.readDouble
  rw [if_pos hsize, hword, Word.byteswap_byteswap]

/-! ## Headers -/

theorem readHeader_eq {file : File} {sp : Spacing} {nx ny nz nSubgrids : ℤ}
    (hfit : ∀ fd ∈ headerFields sp nx ny nz nSubgrids, fd.Fits)
    (hfile : file.AgreeBelow (File.empty.write 0 ((headerFields sp nx ny nz nSubgrids).flatMap Field.bytes)) 64)
    (hsize : 64 ≤ file.size) :
    readHeader file = .ok ⟨sp.x, sp.y, sp.z, nx, ny, nz, sp.dx, sp.dy, sp.dz, nSubgrids⟩ := by
  have hwritten : (File.empty.write 0 ((headerFields sp nx ny nz nSubgrids).flatMap Field.bytes)).size = 64 := by
    show max 0 (0 + ((headerFields sp nx ny nz nSubgrids).flatMap Field.bytes).length) = 64
    rw [length_fields]
    rfl
  have hat : ∀ (pre post : List (Field Word)) (fd : Field Word), headerFields sp nx ny nz nSubgrids = pre ++ fd :: post →
      FieldAt file ((pre.map Field.width).sum) fd := by
    intro pre post fd he
    have h := fieldAt_write File.empty 0 pre post fd
    rw [← he, zero_add] at h
    exact h.congr hfile (h.1.trans hwritten.le) (hwritten.le.trans hsize)
  have hint : ∀ v, Field.int v ∈ headerFields sp nx ny nz nSubgrids → (Field.int v).Fits := fun v hv => hfit _ hv
  have hx : readDouble file 0 = .ok sp.x := FieldAt.readDouble (hat [] _ _ rfl)
  have hy : readDouble file 8 = .ok sp.y := FieldAt.readDouble (hat [_] _ _ rfl)
  have hz : readDouble file 16 = .ok sp.z := FieldAt.readDouble (hat [_, _] _ _ rfl)
  have hnx : readInt file 24 = .ok nx := FieldAt.readInt (hat [_, _, _] _ _ rfl) (hint nx (by simp [headerFields]))
  have hny : readInt file 28 = .ok ny := FieldAt.readInt (hat [_, _, _, _] _ _ rfl) (hint ny (by simp [headerFields]))
  have hnz : readInt file 32 = .ok nz := FieldAt.readInt (hat [_, _, _, _, _] _ _ rfl) (hint nz (by simp [headerFields]))
  have hdx : readDouble file 36 = .ok sp.dx := FieldAt.readDouble (hat [_, _, _, _, _, _] _ _ rfl)
  have hdy : readDouble file 44 = .ok sp.dy := FieldAt.readDouble (hat [_, _, _, _, _, _, _] _ _ rfl)
  have hdz : readDouble file 52 = .ok sp.dz := FieldAt.readDouble (hat [_, _, _, _, _, _, _, _] _ _ rfl)
  have hn : readInt file 60 = .ok nSubgrids :=
    FieldAt.readInt (hat [_, _, _, _, _, _, _, _, _] _ _ rfl) (hint nSubgrids (by simp [headerFields]))
  unfold readHeader
  rw [bind_ok hx, bind_ok hy, bind_ok hz, bind_ok hnx, bind_ok hny, bind_ok hnz, bind_ok hdx, bind_ok hdy, bind_ok hdz,
    bind_ok hn]
  rfl

theorem width_recordFields (start shape : Cell) : ((recordFields start shape).flatMap Field.bytes).length = 36 := by
  rw [length_fields]
  rfl

theorem readSubgridHeader_eq {file f : File} {off : ℕ} {start shape : Cell}
    (hfit : ∀ fd ∈ recordFields start shape, fd.Fits)
    (hfile : file.AgreeBelow (f.write off ((recordFields start shape).flatMap Field.bytes)) (off + 36))
    (hsize : off + 36 ≤ file.size) : readSubgridHeader file off = .ok (start, shape) := by
  have hvalue : ∀ (pre post : List (Field Word)) (v : ℤ), recordFields start shape = pre ++ .int v :: post →
      unpackInt (file.bytesAt (off + (pre.map Field.width).sum) 4) = v := by
    intro pre post v he
    have h := (fieldAt_write f off pre post (.int v)).2
    have hle : (pre.map Field.width).sum + 4 ≤ 36 := by
      have hlen := width_recordFields start shape
      rw [he, length_fields, List.map_append, List.sum_append, List.map_cons, List.sum_cons] at hlen
      have hw : (Field.int v : Field Word).width = 4 := rfl
      omega
    rw [← he] at h
    have hbytes : file.bytesAt (off + (pre.map Field.width).sum) 4 = beBytes (v % 2 ^ 32).toNat :=
      (hfile.bytesAt_eq (by omega)).trans h
    rw [hbytes, unpackInt_beBytes (hfit (.int v) (by rw [he]; simp))]
  have h0 := hvalue [] _ start.1 rfl
  have h1 := hvalue [_] _ start.2.1 rfl
  have h2 := hvalue [_, _] _ start.2.2 rfl
  have h3 := hvalue [_, _, _] _ shape.1 rfl
  have h4 := hvalue [_, _, _, _] _ shape.2.1 rfl
  have h5 := hvalue [_, _, _, _, _] _ shape.2.2 rfl
  unfold readSubgridHeader
  rw [Int.toNat_natCast, if_pos hsize]
  exact congrArg Except.ok (Prod.ext (Prod.ext h0 (Prod.ext h1 h2)) (Prod.ext h3 (Prod.ext h4 h5)))

/-! ## Arrays in the file -/

section Fortran

variable {shape c : Cell}

theorem fortranIndex_bounds (hc : NdArray.InDims shape c) : 0 ≤ fortranIndex shape c ∧ fortranIndex shape c < volume shape := by
  obtain ⟨n, m, l⟩ := shape
  obtain ⟨i, j, k⟩ := c
  obtain ⟨hx, hy, hz⟩ := hc
  simp only [fortranIndex, volume] at hx hy hz ⊢
  have hjk : j + m * k + 1 ≤ m * l := by nlinarith
  have h0 : 0 ≤ j + m * k := by nlinarith
  constructor
  · nlinarith
  · nlinarith

theorem fortranCell_fortranIndex (hc : NdArray.InDims shape c) : fortranCell shape (fortranIndex shape c) = c := by
  obtain ⟨n, m, l⟩ := shape
  obtain ⟨i, j, k⟩ := c
  obtain ⟨hx, hy, -⟩ := hc
  simp only at hx hy
  have hn : n ≠ 0 := by omega
  have hm : m ≠ 0 := by omega
  simp only [fortranCell, fortranIndex, Int.add_mul_emod_self_left, Int.add_mul_ediv_left _ _ hn,
    Int.add_mul_ediv_left _ _ hm, Int.emod_eq_of_lt hx.1 hx.2, Int.ediv_eq_zero_of_lt hx.1 hx.2, zero_add,
    Int.emod_eq_of_lt hy.1 hy.2, Int.ediv_eq_zero_of_lt hy.1 hy.2]

/-- The words of a stored array are found where the reader looks for them. -/
theorem wordAt_writeWords_fortran (f : File) {off : ℤ} (hoff : 0 ≤ off) (mm : NdArray Word) (hc : NdArray.InDims shape c) :
    (f.writeWords off.toNat (volume shape).toNat fun t => mm.get (fortranCell shape t)).wordAt
      (off + 8 * fortranIndex shape c).toNat = mm.get c := by
  obtain ⟨h0, h1⟩ := fortranIndex_bounds hc
  have hpos : (off + 8 * fortranIndex shape c).toNat = off.toNat + 8 * (fortranIndex shape c).toNat := by omega
  rw [hpos, File.wordAt_writeWords (by omega), Int.toNat_of_nonneg h0, fortranCell_fortranIndex hc]

end Fortran

/-! ## One subgrid -/

/-- The value that is stored at a cell of a subgrid. -/
def sourceValue (zFirst : Bool) (array : NdArray Word) (start shape c : Cell) : Word :=
  let block := sourceBlock zFirst array start shape
  block.get (NdArray.repeatIndex block.dims.1 c.1, NdArray.repeatIndex block.dims.2.1 c.2.1,
    NdArray.repeatIndex block.dims.2.2 c.2.2)

section Subgrid

variable {zFirst : Bool} {array : NdArray Word} {st st' : File × ℤ} {off : ℤ} {start shape : Cell}

theorem writeSubgrid_eq (hfit : ∀ fd ∈ recordFields start shape, fd.Fits) :
    writeSubgrid zFirst array st (off, start, shape) =
      storeBlock (st.1.write st.2.toNat ((recordFields start shape).flatMap Field.bytes)) off shape
        (sourceBlock zFirst array start shape) :=
  bind_ok (packFields_eq hfit) _

theorem fits_of_writeSubgrid (h : writeSubgrid zFirst array st (off, start, shape) = .ok st') :
    ∀ fd ∈ recordFields start shape, fd.Fits := by
  obtain ⟨bs, hbs, -⟩ := exists_of_bind_ok h
  exact fits_of_packFields hbs

/-- What a subgrid leaves in the file. -/
theorem writeSubgrid_spec (hshape : 0 < shape.1 ∧ 0 < shape.2.1 ∧ 0 < shape.2.2) (hpos : 64 ≤ st.2) (hoff : off = st.2 + 36)
    (hsize : st.1.size = st.2.toNat) (h : writeSubgrid zFirst array st (off, start, shape) = .ok st') :
    st'.2 = off + 8 * volume shape ∧ st'.1.size = st'.2.toNat ∧ st'.1.AgreeBelow st.1 st.2.toNat ∧
      readSubgridHeader st'.1 st.2 = .ok (start, shape) ∧
      ∀ c, NdArray.InDims shape c → st'.1.wordAt (off + 8 * fortranIndex shape c).toNat =
        (sourceValue zFirst array start shape c).byteswap := by
  have hfit := fits_of_writeSubgrid h
  have hvol : 0 < volume shape := mul_pos (mul_pos hshape.1 hshape.2.1) hshape.2.2
  rw [writeSubgrid_eq hfit] at h
  unfold storeBlock at h
  split at h
  · exact absurd h (by simp)
  · rename_i mm hmm
    simp only [Except.ok.injEq] at h
    subst h
    have hhead : File.AgreeBelow ((st.1.write st.2.toNat ((recordFields start shape).flatMap Field.bytes)).writeWords
        off.toNat (volume shape).toNat fun t => mm.get (fortranCell shape t))
        (st.1.write st.2.toNat ((recordFields start shape).flatMap Field.bytes)) (st.2.toNat + 36) :=
      (File.writeWords_agreeBelow _ _ _ _).mono (by omega)
    have hend : max (max st.1.size (st.2.toNat + ((recordFields start shape).flatMap Field.bytes).length))
        (off.toNat + 8 * (volume shape).toNat) = (off + 8 * volume shape).toNat := by
      rw [width_recordFields, hsize]
      omega
    refine ⟨rfl, hend, (hhead.mono (by omega)).trans (File.write_agreeBelow _ _ _), ?_, ?_⟩
    · have hread := readSubgridHeader_eq hfit hhead (by
        show _ ≤ max (max st.1.size (st.2.toNat + ((recordFields start shape).flatMap Field.bytes).length))
          (off.toNat + 8 * (volume shape).toNat)
        rw [hend]
        omega)
      rwa [Int.toNat_of_nonneg (by omega)] at hread
    · intro c hc
      rw [wordAt_writeWords_fortran _ (by omega) mm hc,
        NdArray.get_of_assign_all hshape.1.le hshape.2.1.le hshape.2.2.le hmm hc]
      rfl

theorem writeSubgrid_ok (st : File × ℤ) (off : ℤ) (hshape : 0 < shape.1 ∧ 0 < shape.2.1 ∧ 0 < shape.2.2)
    (hfit : ∀ fd ∈ recordFields start shape, fd.Fits) (hdims : (sourceBlock zFirst array start shape).dims = shape) :
    ∃ st', writeSubgrid zFirst array st (off, start, shape) = .ok st' := by
  obtain ⟨mm, hmm⟩ := NdArray.assign_all_isSome
    (a := memmap (st.1.write st.2.toNat ((recordFields start shape).flatMap Field.bytes)) off shape)
    (b := (sourceBlock zFirst array start shape).map Word.byteswap) hshape.1.le hshape.2.1.le hshape.2.2.le hdims
  rw [writeSubgrid_eq hfit]
  unfold storeBlock
  rw [hmm]
  exact ⟨_, rfl⟩

end Subgrid

end ParFlow.Pfb
