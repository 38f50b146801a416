import ParFlow.Amps.AmpsDefs
import ParFlow.Comm.PackAddress
import ParFlow.Lib.Strided

/-! The room allocated for a strided vector is enough exactly when the stride of its first dimension does not matter. The
size without that stride is the span of the elements plus one element for each line but the first, and it falls short by
the gaps of every line. -/

namespace ParFlow

open IntLoop Strided

section

variable {elSize x : ℤ} {n dim : ℕ} {len stride : ℕ → ℤ}

/-! ## The elements -/

/-- The dimensions with absolute strides. -/
def absoluteDimensions (len stride : ℕ → ℤ) : Dimensions := ⟨len, fun d => lastOffset len stride d + stride d, 0⟩

theorem extent_absolute (d : ℕ) :
    extent len (absoluteDimensions len stride).sa d = lastOffset len stride d := by
  induction d with
  | zero => rfl
  | succ d ih =>
    rw [extent_succ, ih, lastOffset]
    simp only [absoluteDimensions]
    ring

theorem incrementalStride_absolute : incrementalStride (absoluteDimensions len stride) = stride := by
  funext i
  have hextent := @extent_absolute len stride i
  rw [incrementalStride_eq]
  simp only [absoluteDimensions] at hextent ⊢
  rw [hextent]
  ring

theorem vectorElements_eq (hlen : ∀ j < n + 1, 0 < len j) :
    vectorElements (n + 1) len stride = offsets len (absoluteDimensions len stride).sa (n + 1) := by
  have h := @vectorIn_eq (absoluteDimensions len stride) (n + 1) hlen n n.lt_succ_self 0
  rw [incrementalStride_absolute] at h
  unfold vectorElements
  rw [Nat.add_sub_cancel]
  change vectorIn len stride n 0 = _ at h
  rw [h]
  simp [absoluteDimensions]

theorem spanBytes_vectorElements (hlen : ∀ j < n + 1, 0 < len j) :
    spanBytes elSize (vectorElements (n + 1) len stride) = (lastOffset len stride (n + 1) + 1) * elSize := by
  rw [vectorElements_eq hlen, spanBytes, getLast?_offsets hlen, head?_offsets hlen, extent_absolute]
  simp

theorem length_vectorElements (hlen : ∀ j < n + 1, 0 < len j) :
    ((vectorElements (n + 1) len stride).length : ℤ) = volume len (n + 1) := by
  rw [vectorElements_eq hlen, length_offsets hlen]

theorem lineCount_one : lineCount 1 len = 1 := rfl

theorem lineCount_succ : lineCount (n + 2) len = lineCount (n + 1) len * len (n + 1) := by
  simp [lineCount, List.range_succ]

theorem volume_eq_lines : volume len (n + 1) = len 0 * lineCount (n + 1) len := by
  induction n with
  | zero => simp [volume, lineCount_one]
  | succ n ih =>
    rw [volume, ih, lineCount_succ]
    ring

theorem lineCount_pos (hlen : ∀ j < n + 1, 0 < len j) : 0 < lineCount (n + 1) len := by
  have hvolume := volume_pos hlen
  rw [volume_eq_lines] at hvolume
  exact pos_of_mul_pos_right hvolume (hlen 0 n.succ_pos).le

/-- Different elements have different offsets. -/
theorem volume_le_lastOffset {d : ℕ} (hlen : ∀ j < d, 0 < len j) (hstride : ∀ j < d, 0 < stride j) :
    volume len d ≤ lastOffset len stride d + 1 := by
  induction d with
  | zero => exact le_rfl
  | succ d ih =>
    have hd := d.lt_succ_self
    have hbelow := ih (fun j hj => hlen j (hj.trans hd)) fun j hj => hstride j (hj.trans hd)
    have hgaps : 1 * (len d - 1) ≤ stride d * (len d - 1) :=
      mul_le_mul_of_nonneg_right (Int.add_one_le_iff.mpr (hstride d hd)) (Int.sub_nonneg_of_le (hlen d hd))
    calc volume len (d + 1) = volume len d * len d := rfl
      _ ≤ (lastOffset len stride d + 1) * len d := mul_le_mul_of_nonneg_right hbelow (hlen d hd).le
      _ = lastOffset len stride d * len d + 1 * (len d - 1) + 1 := by ring
      _ ≤ lastOffset len stride d * len d + stride d * (len d - 1) + 1 := by gcongr

/-! ## The sizes -/

theorem sizeofBuffer_eq : sizeofBuffer elSize len n = BitVec.ofInt 32 (elSize * volume len (n + 1)) := by
  induction n with
  | zero => simp [sizeofBuffer, ampsSizeof, volume, mul_comm]
  | succ n ih => rw [sizeofBuffer, ih, ← BitVec.ofInt_mul, mul_assoc, ← volume]

/-- The size as a number without bounds: the gaps of every line are missing. -/
def exactSize (elSize : ℤ) (len stride : ℕ → ℤ) (n : ℕ) : ℤ :=
  (lastOffset len stride (n + 1) + lineCount (n + 1) len * (1 - (len 0 - 1) * (stride 0 - 1))) * elSize

theorem exactSize_zero : exactSize elSize len stride 0 = len 0 * elSize := by
  rw [exactSize, zero_add, lineCount_one]
  simp only [lastOffset]
  ring

theorem exactSize_succ : exactSize elSize len stride (n + 1) =
    exactSize elSize len stride n * len (n + 1) + stride (n + 1) * (len (n + 1) - 1) * elSize := by
  simp only [exactSize, lineCount_succ, lastOffset.eq_2 len stride (n + 1)]
  ring

theorem sizeofLocal_eq : sizeofLocal elSize len stride n = BitVec.ofInt 32 (exactSize elSize len stride n) := by
  induction n with
  | zero => rw [exactSize_zero, sizeofLocal, ampsSizeof]
  | succ n ih => rw [sizeofLocal, ih, ← BitVec.ofInt_mul, ← BitVec.ofInt_mul, ← BitVec.ofInt_add, ← exactSize_succ]

theorem exactSize_nonneg (hel : 0 < elSize) (hlen : ∀ j < n + 1, 0 < len j) (hstride : ∀ j < n + 1, 0 < stride j) :
    0 ≤ exactSize elSize len stride n := by
  induction n with
  | zero =>
    rw [exactSize_zero]
    exact (mul_pos (hlen 0 one_pos) hel).le
  | succ n ih =>
    have hlast := (n + 1).lt_succ_self
    have hbelow := ih (fun j hj => hlen j (hj.trans hlast)) fun j hj => hstride j (hj.trans hlast)
    have hgaps : 0 ≤ len (n + 1) - 1 := Int.sub_nonneg_of_le (hlen (n + 1) hlast)
    rw [exactSize_succ]
    exact add_nonneg (mul_nonneg hbelow (hlen (n + 1) hlast).le)
      (mul_nonneg (mul_nonneg (hstride (n + 1) hlast).le hgaps) hel.le)

/-! ## Numbers of 32 bits -/

theorem toInt_ofInt_of_lt (hx : 0 ≤ x) (hlt : x < 2 ^ 31) : (BitVec.ofInt 32 x).toInt = x := by
  rw [BitVec.toInt_ofInt]
  exact Int.bmod_eq_of_le_mul_two (by omega) (by omega)

theorem toInt_ofInt_le (hx : 0 ≤ x) : (BitVec.ofInt 32 x).toInt ≤ x := by
  rw [BitVec.toInt_ofInt, Int.bmod_def]
  norm_num
  split_ifs <;> omega

/-- A number that does not fit is read back smaller than the half of it. -/
theorem toInt_ofInt_lt_of_le (hle : 2 ^ 31 ≤ x) : 2 * (BitVec.ofInt 32 x).toInt < x := by
  rw [BitVec.toInt_ofInt, Int.bmod_def]
  norm_num
  split_ifs <;> omega

/-! ## When the room is enough -/

theorem vectorSized_iff (hel : 0 < elSize) (hdim : 0 < dim) (hlen : ∀ j < dim, 0 < len j) (hstride : ∀ j < dim, 0 < stride j) :
    VectorSized elSize dim len stride ↔
      (len 0 = 1 ∨ stride 0 = 1) ∧ (lastOffset len stride dim + lineCount dim len) * elSize < 2 ^ 31 := by
  obtain ⟨n, rfl⟩ : ∃ n, dim = n + 1 := ⟨dim - 1, (Nat.succ_pred_eq_of_pos hdim).symm⟩
  have hlines := lineCount_pos hlen
  have hvolume := volume_le_lastOffset hlen hstride
  have hfirst : lineCount (n + 1) len ≤ volume len (n + 1) := by
    rw [volume_eq_lines]
    exact le_mul_of_one_le_left hlines.le (hlen 0 n.succ_pos)
  have hnonneg := exactSize_nonneg hel hlen hstride
  -- without gaps along a line the size is the span and one element for each further line
  have hexact : len 0 = 1 ∨ stride 0 = 1 →
      exactSize elSize len stride n = (lastOffset len stride (n + 1) + lineCount (n + 1) len) * elSize := by
    rintro (h | h) <;> simp [exactSize, h]
  unfold VectorSized ampsVectorSizeofLocal ampsVectorSizeofBuffer
  rw [spanBytes_vectorElements hlen, length_vectorElements hlen, Nat.add_sub_cancel, sizeofLocal_eq, sizeofBuffer_eq]
  constructor
  · rintro ⟨hspan, -⟩
    have hflat : len 0 = 1 ∨ stride 0 = 1 := by
      have hle := lt_of_mul_lt_mul_right (hspan.trans (toInt_ofInt_le hnonneg) |>.trans_lt
        (lt_add_of_pos_right _ hel) |>.trans_eq (by rw [exactSize, ← add_one_mul])) hel.le
      have hprod : 0 < 1 - (len 0 - 1) * (stride 0 - 1) := pos_of_mul_pos_right (by linarith) hlines.le
      have hzero : (len 0 - 1) * (stride 0 - 1) = 0 := le_antisymm (by linarith) (mul_nonneg
        (Int.sub_nonneg_of_le (hlen 0 n.succ_pos)) (Int.sub_nonneg_of_le (hstride 0 n.succ_pos)))
      exact (mul_eq_zero.mp hzero).imp sub_eq_zero.mp sub_eq_zero.mp
    refine ⟨hflat, ?_⟩
    rw [← hexact hflat]
    by_contra hbig
    have hhalf := toInt_ofInt_lt_of_le (not_lt.mp hbig)
    rw [hexact hflat] at hhalf hspan
    have htwice : (lastOffset len stride (n + 1) + lineCount (n + 1) len) * elSize ≤
        2 * ((lastOffset len stride (n + 1) + 1) * elSize) := by
      rw [← mul_assoc]
      exact mul_le_mul_of_nonneg_right (by linarith) hel.le
    linarith
  · rintro ⟨hflat, hfits⟩
    have hspan : (lastOffset len stride (n + 1) + 1) * elSize ≤
        (lastOffset len stride (n + 1) + lineCount (n + 1) len) * elSize :=
      mul_le_mul_of_nonneg_right (by linarith) hel.le
    have hbuffer : elSize * volume len (n + 1) ≤ (lastOffset len stride (n + 1) + 1) * elSize := by
      rw [mul_comm]
      exact mul_le_mul_of_nonneg_right hvolume hel.le
    have hpos : 0 ≤ elSize * volume len (n + 1) := mul_nonneg hel.le (hlines.le.trans hfirst)
    rw [hexact hflat, toInt_ofInt_of_lt (hpos.trans (hbuffer.trans hspan)) hfits,
      toInt_ofInt_of_lt hpos ((hbuffer.trans hspan).trans_lt hfits)]
    exact ⟨hspan, mul_comm _ _⟩

/-- Two lines of three values next to each other, ten apart. -/
theorem unitStride_vectorSized : VectorSized 8 2 (fun i => if i = 0 then 3 else 2) fun i => if i = 0 then 1 else 8 :=
  (vectorSized_iff (by decide) (by decide) (by decide) (by decide)).mpr (by decide)

/-- Two doubles with a gap of one between them take three, and room is made for two. -/
theorem strided_not_vectorSized : ¬ VectorSized 8 1 (fun _ => 2) fun _ => 2 := by
  decide

end

end ParFlow
