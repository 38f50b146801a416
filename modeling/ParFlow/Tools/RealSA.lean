import ParFlow.Lib.Strided
import ParFlow.Tools.ReadDefs

/-! A point goes to the cell it is near, but on the lower side of an axis the rounding toward zero keeps the points of one
more cell, and these go to the first cell. -/

namespace ParFlow.RealSA

set_option linter.unusedSectionVars false

open WriteLog Strided
open ParFlow.Pfb (Databox)

section Axis

variable {K : Type} [Field K] [LinearOrder K] [IsStrictOrderedRing K] [FloorRing K] {t x0 dx x : K} {i : ℤ}

theorem toInt_eq_iff (hi : 0 ≤ i) : toInt t = i ↔ (i ≤ t ∧ t < i + 1) ∨ i = 0 ∧ -1 < t ∧ t < 0 := by
  unfold toInt
  split_ifs with ht
  · rw [Int.floor_eq_iff]
    exact ⟨Or.inl, fun h => h.resolve_right fun hbelow => ht.not_gt hbelow.2.2⟩
  · have hneg := not_le.mp ht
    have hcast : (0 : K) ≤ i := Int.cast_nonneg hi
    rw [Int.ceil_eq_iff]
    constructor
    · rintro ⟨hlow, -⟩
      have hzero : i = 0 := by
        have hlt : (i : K) < 1 := by linarith
        have : i < 1 := by exact_mod_cast hlt
        omega
      subst hzero
      rw [Int.cast_zero, zero_sub] at hlow
      exact Or.inr ⟨rfl, hlow, hneg⟩
    · rintro (⟨hle, -⟩ | ⟨rfl, hlow, -⟩)
      · exact absurd (hcast.trans hle) ht
      · rw [Int.cast_zero, zero_sub]
        exact ⟨hlow, hneg.le⟩

/-- A quotient and its bounds, scaled. -/
theorem le_scale_iff (hdx : 0 < dx) (a b : K) : a ≤ b ↔ a * dx ≤ b * dx := (mul_le_mul_iff_of_pos_right hdx).symm

theorem lt_scale_iff (hdx : 0 < dx) (a b : K) : a < b ↔ a * dx < b * dx := (mul_lt_mul_iff_of_pos_right hdx).symm

theorem nearAxis_iff (hdx : 0 < dx) :
    NearAxis x0 dx x i ↔ (i : K) ≤ (x - x0) / dx + 1 / 2 ∧ (x - x0) / dx + 1 / 2 < i + 1 := by
  have hx : x = x0 + ((x - x0) / dx + 1 / 2) * dx - dx / 2 := by field_simp; ring
  generalize (x - x0) / dx + 1 / 2 = t at hx ⊢
  rw [NearAxis, hx, le_scale_iff hdx i t, lt_scale_iff hdx t (i + 1), add_one_mul]
  constructor <;> rintro ⟨hlow, hhigh⟩ <;> constructor <;> linarith

theorem belowAxis_iff (hdx : 0 < dx) : BelowAxis x0 dx x ↔ -1 < (x - x0) / dx + 1 / 2 ∧ (x - x0) / dx + 1 / 2 < 0 := by
  have hx : x = x0 + ((x - x0) / dx + 1 / 2) * dx - dx / 2 := by field_simp; ring
  generalize (x - x0) / dx + 1 / 2 = t at hx ⊢
  rw [BelowAxis, hx, lt_scale_iff hdx (-1) t, lt_scale_iff hdx t 0, zero_mul, neg_one_mul]
  constructor <;> rintro ⟨hlow, hhigh⟩ <;> constructor <;> linarith

theorem axisIndex_eq_iff (hdx : 0 < dx) (hi : 0 ≤ i) :
    axisIndex x0 dx x = i ↔ NearAxis x0 dx x i ∨ i = 0 ∧ BelowAxis x0 dx x := by
  rw [axisIndex, toInt_eq_iff hi, ← nearAxis_iff hdx, ← belowAxis_iff hdx]

end Axis

section Cells

variable {K : Type} [Field K] [LinearOrder K] [IsStrictOrderedRing K] [FloorRing K] {h : Header K} {p : Point K}
  {c d : ℤ × ℤ × ℤ} {defaultValue : K} {points : List (Point K)}

theorem Near.reaches (hp : Near h c p) : Reaches h c p := ⟨Or.inl hp.1, Or.inl hp.2.1, Or.inl hp.2.2⟩

theorem cellIndex_eq_iff (hx : 0 < h.dx) (hy : 0 < h.dy) (hz : 0 < h.dz) (hc : InGrid h c) :
    cellIndex h p = c ↔ Reaches h c p := by
  obtain ⟨i, j, k⟩ := c
  obtain ⟨⟨hi, -⟩, ⟨hj, -⟩, ⟨hk, -⟩⟩ := hc
  rw [Reaches, ← axisIndex_eq_iff hx (Int.add_one_le_iff.mpr hi), ← axisIndex_eq_iff hy (Int.add_one_le_iff.mpr hj),
    ← axisIndex_eq_iff hz (Int.add_one_le_iff.mpr hk)]
  simp only [cellIndex, Prod.mk.injEq]

def place (h : Header K) (c : ℤ × ℤ × ℤ) : ℤ := c.2.2 * h.ny * h.nx + c.2.1 * h.nx + c.1

/-- The index of `DataboxCoeff` tells the cells of a grid apart. -/
theorem place_inj (hc : InGrid h c) (hd : InGrid h d) (heq : place h c = place h d) : c = d := by
  obtain ⟨⟨hi, hi'⟩, ⟨hj, hj'⟩, -⟩ := hc
  obtain ⟨⟨hk, hk'⟩, ⟨hl, hl'⟩, -⟩ := hd
  have hradix : c.1 + (c.2.1 + c.2.2 * h.ny) * h.nx = d.1 + (d.2.1 + d.2.2 * h.ny) * h.nx := by
    simp only [place] at heq
    linarith
  obtain ⟨hx, hrest⟩ := radix_inj ⟨Int.add_one_le_iff.mpr hi, hi'⟩ ⟨Int.add_one_le_iff.mpr hk, hk'⟩ hradix
  obtain ⟨hy, hz⟩ := radix_inj ⟨Int.add_one_le_iff.mpr hj, hj'⟩ ⟨Int.add_one_le_iff.mpr hl, hl'⟩ hrest
  exact Prod.ext hx (Prod.ext hy hz)

/-! ## The loop -/

/-- The databox keeps its sizes, and its values are written by a loop of their own. -/
theorem readRealSA_spec (points : List (Point K)) :
    (readRealSA h defaultValue points).nx = h.nx ∧ (readRealSA h defaultValue points).ny = h.ny ∧
      (readRealSA h defaultValue points).coeffs = points.foldl (fun d p =>
        if InGrid h (cellIndex h p) then Function.update d (place h (cellIndex h p)) p.value else d) fun _ => defaultValue := by
  induction points using List.reverseRecOn with
  | nil => exact ⟨rfl, rfl, rfl⟩
  | append_singleton points p ih =>
    obtain ⟨hnx, hny, hcoeffs⟩ := ih
    unfold readRealSA at *
    simp only [List.foldl_append, List.foldl_cons, List.foldl_nil]
    rw [← hcoeffs]
    dsimp only [readPoint]
    split_ifs
    · refine ⟨hnx, hny, ?_⟩
      simp only [Databox.coeff, hnx, hny, place]
    · exact ⟨hnx, hny, rfl⟩

theorem coeffs_readRealSA (hx : 0 < h.dx) (hy : 0 < h.dy) (hz : 0 < h.dz) (hc : InGrid h c) :
    (readRealSA h defaultValue points).coeffs ((readRealSA h defaultValue points).coeff c.1 c.2.1 c.2.2) =
      lastValue (Reaches h c) Point.value defaultValue points := by
  obtain ⟨hnx, hny, hcoeffs⟩ := @readRealSA_spec K _ _ _ _ h defaultValue points
  have hplace : ∀ p : Point K, Reaches h c p ↔ InGrid h (cellIndex h p) ∧ place h (cellIndex h p) = place h c := by
    intro p
    rw [← cellIndex_eq_iff hx hy hz hc]
    constructor
    · rintro rfl
      exact ⟨hc, rfl⟩
    · rintro ⟨hgrid, heq⟩
      exact place_inj hgrid hc heq
  rw [hcoeffs, Databox.coeff, hnx, hny]
  exact foldl_write_eq_lastValue hplace points _

/-- Every cell has the value of the last point near it exactly when the points below the grid do no harm. -/
theorem readRealSA_iff (hx : 0 < h.dx) (hy : 0 < h.dy) (hz : 0 < h.dz) :
    ReadsNearest h defaultValue points ↔ StraysHarmless h defaultValue points := by
  unfold ReadsNearest StraysHarmless nearestValue
  apply forall₂_congr
  intro c hc
  rw [coeffs_readRealSA hx hy hz hc]
  exact lastValue_eq_iff fun p hp => hp.reaches

end Cells

/-- A grid of two cells in a row. -/
def twoCells : Header ℚ := ⟨0, 0, 0, 2, 1, 1, 1, 1, 1⟩

theorem onePoint_readRealSA_iff : ReadsNearest twoCells 0 [⟨1, 0, 0, 7⟩] ↔ StraysHarmless twoCells 0 [⟨1, 0, 0, 7⟩] :=
  readRealSA_iff (by decide) (by decide) (by decide)

/-- A point one cell below the first is read into it. -/
theorem pointBelow_not_readsNearest : ¬ ReadsNearest twoCells 0 [⟨-1, 0, 0, 7⟩] := by
  intro h
  exact absurd (h (0, 0, 0) (by decide)) (by decide +kernel)

end ParFlow.RealSA
