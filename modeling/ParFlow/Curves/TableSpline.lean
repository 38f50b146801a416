import Mathlib.Tactic.FieldSimp
import Mathlib.Tactic.Linarith
import Mathlib.Tactic.Ring
import ParFlow.Curves.CurveDefs
import ParFlow.Lib.HermiteSpline
import ParFlow.Lib.PointLoop

/-! The lookup tables of the relative permeability: what the loop over the slopes leaves keeps the interpolation monotone. -/

namespace ParFlow.Curves

open IntLoop PointLoop HermiteSpline

variable {K : Type} [Field K] [LinearOrder K]

omit [Field K] [LinearOrder K] in
theorem fill_get {lo hi : ℤ} (val : ℤ → K) (d : ℤ → K) {i : ℤ} (hi' : lo ≤ i ∧ i < hi) : fill lo hi val d i = val i :=
  upto_get (fun i => i) (fun _ _ h => h) val lo hi d hi'

omit [Field K] [LinearOrder K] in
theorem fill_get_of_not {lo hi : ℤ} (val : ℤ → K) (d : ℤ → K) {i : ℤ} (hi' : ¬ (lo ≤ i ∧ i < hi)) :
    fill lo hi val d i = d i :=
  upto_get_of_ne (fun i => i) (fun i _ => val i) lo hi d fun _ hj h => hi' (h ▸ hj)

/-! ## Slopes -/

section Slopes

variable [IsStrictOrderedRing K]

/-- Scaling back the two slopes of a cell: both get nearer to zero and within three times the fall. -/
theorem scaled_slope {δ u v : K} (hδ : δ < 0) (hu : u ≤ 0) (hm : 9 < (u / δ) ^ 2 + (v / δ) ^ 2) :
    u ≤ 3 * (u / δ) * δ / ((u / δ) ^ 2 + (v / δ) ^ 2) ∧ 3 * (u / δ) * δ / ((u / δ) ^ 2 + (v / δ) ^ 2) ≤ 0 ∧
      3 * δ ≤ 3 * (u / δ) * δ / ((u / δ) ^ 2 + (v / δ) ^ 2) := by
  set α := u / δ with hα
  set magn := α ^ 2 + (v / δ) ^ 2 with hmagn
  have hu' : α * δ = u := div_mul_cancel₀ u hδ.ne
  have hpos : 0 < magn := by linarith
  have hα0 : 0 ≤ α := div_nonneg_of_nonpos hu hδ.le
  have hsq : α ^ 2 ≤ magn := le_add_of_nonneg_right (sq_nonneg _)
  have hle : α ≤ magn := by nlinarith
  rw [← hu', mul_assoc 3 α δ]
  refine ⟨?_, ?_, ?_⟩
  · rw [le_div_iff₀ hpos]
    nlinarith [mul_nonneg hα0 (neg_nonneg.mpr hδ.le)]
  · rw [div_le_iff₀ hpos]
    nlinarith [mul_nonneg hα0 (neg_nonneg.mpr hδ.le)]
  · rw [le_div_iff₀ hpos]
    nlinarith [mul_nonneg (sub_nonneg.mpr hle) (neg_nonneg.mpr hδ.le)]

theorem small_slope {δ u v : K} (hδ : δ < 0) (hm : (u / δ) ^ 2 + (v / δ) ^ 2 ≤ 9) : 3 * δ ≤ u := by
  have hα : u / δ ≤ 3 := by nlinarith [sq_nonneg (v / δ), sq_nonneg (u / δ - 3)]
  rwa [div_le_iff_of_neg hδ] at hα

/-- A round of the loop changes the slopes at the ends of its cell only. -/
theorem limitStep_spec {del d : ℤ → K} {i : ℤ} (hdel : del i ≤ 0) (h₀ : d i ≤ 0) (h₁ : d (i + 1) ≤ 0) :
    (∀ j, j ≠ i → j ≠ i + 1 → limitStep del d i j = d j) ∧
    (∀ j, (j = i ∨ j = i + 1) → d j ≤ limitStep del d i j ∧ limitStep del d i j ≤ 0 ∧ 3 * del i ≤ limitStep del d i j) := by
  have hne : i ≠ i + 1 := by omega
  unfold limitStep
  simp only
  split_ifs with hzero hbig
  · refine ⟨fun j h h' => by rw [Function.update_of_ne h', Function.update_of_ne h], ?_⟩
    rintro j (rfl | rfl)
    · rw [Function.update_of_ne hne, Function.update_self, hzero]
      exact ⟨h₀, le_rfl, by simp⟩
    · rw [Function.update_self, hzero]
      exact ⟨h₁, le_rfl, by simp⟩
  · have hneg : del i < 0 := lt_of_le_of_ne hdel hzero
    refine ⟨fun j h h' => by rw [Function.update_of_ne h', Function.update_of_ne h], ?_⟩
    rintro j (rfl | rfl)
    · rw [Function.update_of_ne hne, Function.update_self]
      exact scaled_slope hneg h₀ hbig
    · rw [Function.update_self, add_comm ((d i / del i) ^ 2)]
      exact scaled_slope hneg h₁ (by rwa [add_comm])
  · have hneg : del i < 0 := lt_of_le_of_ne hdel hzero
    refine ⟨fun _ _ _ => rfl, ?_⟩
    rintro j (rfl | rfl)
    · exact ⟨le_rfl, h₀, small_slope hneg (not_lt.mp hbig)⟩
    · exact ⟨le_rfl, h₁, small_slope hneg (by rw [add_comm]; exact not_lt.mp hbig)⟩

/-- The loop over the slopes of falling values. -/
theorem limit_run {n : ℤ} {del d : ℤ → K} (hdel : ∀ i, 0 ≤ i ∧ i < n → del i ≤ 0) (hd : ∀ i, 0 ≤ i ∧ i ≤ n → d i ≤ 0) (k : ℕ)
    (hk : (k : ℤ) ≤ n) :
    (∀ i, 0 ≤ i ∧ i ≤ n → (upto 0 k).foldl (limitStep del) d i ≤ 0) ∧
    ∀ i : ℤ, 0 ≤ i ∧ i < k → 3 * del i ≤ (upto 0 k).foldl (limitStep del) d i ∧
      3 * del i ≤ (upto 0 k).foldl (limitStep del) d (i + 1) := by
  induction k with
  | zero => exact ⟨hd, fun i hi => by omega⟩
  | succ k ih =>
    obtain ⟨hnonpos, hbound⟩ := ih (by omega)
    rw [Nat.cast_succ, upto_concat (by omega), List.foldl_append, List.foldl_cons, List.foldl_nil]
    set d' := (upto 0 k).foldl (limitStep del) d
    obtain ⟨hother, hcell⟩ := limitStep_spec (hdel k (by omega)) (hnonpos k (by omega)) (hnonpos (k + 1) (by omega))
    -- a round only raises slopes towards zero, so that the bounds of the cells before stay
    have hup : ∀ i, d' i ≤ limitStep del d' k i := fun i => by
      by_cases hi : i = k ∨ i = k + 1
      · exact (hcell i hi).1
      · rw [not_or] at hi
        exact (hother i hi.1 hi.2).ge
    refine ⟨fun i hi => ?_, fun i hi => ?_⟩
    · by_cases hc : i = k ∨ i = k + 1
      · exact (hcell i hc).2.1
      · rw [not_or] at hc
        exact (hother i hc.1 hc.2).trans_le (hnonpos i hi)
    · rcases eq_or_ne i k with rfl | hne
      · exact ⟨(hcell k (Or.inl rfl)).2.2, (hcell (k + 1) (Or.inr rfl)).2.2⟩
      · obtain ⟨hlo, hhi⟩ := hbound i (by omega)
        exact ⟨hlo.trans (hup i), hhi.trans (hup (i + 1))⟩

/-- The slopes through falling values do not rise and are at most three times as steep as the cells at them. -/
theorem splineSlopes_bound {n : ℤ} (hn : 1 ≤ n) {x a : ℤ → K}
    (hfall : ∀ i, 0 ≤ i ∧ i < n → (a (i + 1) - a i) / (x (i + 1) - x i) ≤ 0) {i : ℤ} (hi : 0 ≤ i ∧ i < n) :
    (3 * ((a (i + 1) - a i) / (x (i + 1) - x i)) ≤ splineSlopes n x a i ∧ splineSlopes n x a i ≤ 0) ∧
    3 * ((a (i + 1) - a i) / (x (i + 1) - x i)) ≤ splineSlopes n x a (i + 1) ∧ splineSlopes n x a (i + 1) ≤ 0 := by
  set del := fill 0 n (fun index => (a (index + 1) - a index) / (x (index + 1) - x index)) fun _ => 0 with hdel
  have hget : ∀ i, 0 ≤ i ∧ i < n → del i = (a (i + 1) - a i) / (x (i + 1) - x i) := fun i hi => fill_get _ _ hi
  have hdel0 : ∀ i, 0 ≤ i ∧ i < n → del i ≤ 0 := fun i hi => (hget i hi).trans_le (hfall i hi)
  set d := fill 1 n (fun index => (del (index - 1) + del index) / 2)
    (Function.update (Function.update (fun _ => 0) 0 (del 0)) n (del (n - 1))) with hd
  have hd0 : ∀ i, 0 ≤ i ∧ i ≤ n → d i ≤ 0 := by
    intro i hi
    by_cases hmid : 1 ≤ i ∧ i < n
    · rw [hd, fill_get _ _ hmid]
      linarith [hdel0 (i - 1) (by omega), hdel0 i (by omega)]
    · rw [hd, fill_get_of_not _ _ hmid]
      rcases eq_or_ne i n with rfl | hne
      · rw [Function.update_self]
        exact hdel0 _ (by omega)
      · rw [Function.update_of_ne hne, show i = 0 by omega, Function.update_self]
        exact hdel0 0 (by omega)
  obtain ⟨hnonpos, hbound⟩ := limit_run hdel0 hd0 n.toNat (by omega)
  rw [Int.toNat_of_nonneg (by omega)] at hnonpos hbound
  rw [← hget i hi]
  exact ⟨⟨(hbound i hi).1, hnonpos i (by omega)⟩, (hbound i hi).2, hnonpos (i + 1) (by omega)⟩

end Slopes

/-! ## Tables -/

/-- A table with at least two points, over a curve that falls from 1 and stays above 0. -/
structure GoodTable (pow : K → K → K) (n : ℤ) (minPressureHead alpha expo : K) : Prop where
  points : 2 ≤ n
  head : minPressureHead ≠ 0
  falls : ∀ s t, 0 ≤ s → s ≤ t → vanGRelPerm pow .calcFcn alpha expo t ≤ vanGRelPerm pow .calcFcn alpha expo s
  start : vanGRelPerm pow .calcFcn alpha expo 0 = 1
  nonneg : ∀ t, 0 ≤ t → 0 ≤ vanGRelPerm pow .calcFcn alpha expo t

section Lookup

variable [IsStrictOrderedRing K] {pow : K → K → K} {method n : ℤ} {minPressureHead alpha expo : K}

/-- The distance of the points of a table. -/
def spacing (n : ℤ) (minPressureHead : K) : K := |minPressureHead / ((n - 1 : ℤ) : K)|

/-- The values of a table. -/
def sampleAt (pow : K → K → K) (n : ℤ) (minPressureHead alpha expo : K) (i : ℤ) : K :=
  vanGRelPerm pow .calcFcn alpha expo (i * spacing n minPressureHead)

theorem spacing_pos (hn : 2 ≤ n) (hhead : minPressureHead ≠ 0) : 0 < spacing n minPressureHead := by
  have hcast : ((n - 1 : ℤ) : K) ≠ 0 := Int.cast_ne_zero.mpr (by omega)
  exact abs_pos.mpr (div_ne_zero hhead hcast)

theorem spacing_mul (hn : 2 ≤ n) : ((n - 1 : ℤ) : K) * spacing n minPressureHead = |minPressureHead| := by
  have hcast : 0 < ((n - 1 : ℤ) : K) := Int.cast_pos.mpr (by omega)
  unfold spacing
  rw [abs_div, abs_of_pos hcast, mul_div_cancel₀ _ hcast.ne']

theorem table_x {i : ℤ} (hi : 0 ≤ i ∧ i ≤ n) :
    (vanGComputeTable pow method n minPressureHead alpha expo).x i = i * spacing n minPressureHead := by
  refine (fill_get _ _ (by omega)).trans ?_
  rw [abs_mul, abs_of_nonneg (Int.cast_nonneg hi.1)]
  rfl

theorem table_a {i : ℤ} (hi : 0 ≤ i ∧ i ≤ n) : (vanGComputeTable pow method n minPressureHead alpha expo).a i =
    sampleAt pow n minPressureHead alpha expo i := by
  have hx : (vanGComputeTable pow method n minPressureHead alpha expo).x i = i * spacing n minPressureHead := table_x hi
  refine (fill_get _ _ (by omega)).trans ?_
  exact congrArg _ hx

theorem table_cell {i : ℤ} (hi : 0 ≤ i ∧ i < n) : (vanGComputeTable pow method n minPressureHead alpha expo).x (i + 1) -
    (vanGComputeTable pow method n minPressureHead alpha expo).x i = spacing n minPressureHead := by
  rw [table_x (by omega), table_x (by omega), Int.cast_add, Int.cast_one]
  ring

/-- The lookup by the method of a table. -/
def lookup [FloorRing K] (x : K) (t : VanGTable K) : K :=
  if t.interpolationMethod = 0 then vanGLookupSpline x t .calcFcn else vanGLookupLinear x t .calcFcn

/-- The value at the position `s` of a cell. -/
def pieceAt (t : VanGTable K) (w : K) (i : ℤ) (s : K) : K :=
  if t.interpolationMethod = 0 then hermite (t.a i) (t.a (i + 1)) (w * t.d i) (w * t.d (i + 1)) s
  else t.a i + (t.a (i + 1) - t.a i) * s

omit [IsStrictOrderedRing K] in
@[simp] theorem table_method : (vanGComputeTable pow method n minPressureHead alpha expo).interpolationMethod = method := rfl

variable (h : GoodTable pow n minPressureHead alpha expo)

include h

theorem GoodTable.sample_le {i : ℤ} (hi : 0 ≤ i) : sampleAt pow n minPressureHead alpha expo (i + 1) ≤
    sampleAt pow n minPressureHead alpha expo i := by
  have hpos := spacing_pos h.points h.head
  refine h.falls _ _ (mul_nonneg (Int.cast_nonneg hi) hpos.le) ?_
  exact mul_le_mul_of_nonneg_right (Int.cast_le.mpr (by omega)) hpos.le

/-- The slopes of the spline in units of the cells. -/
theorem GoodTable.slopes {i : ℤ} (hi : 0 ≤ i ∧ i < n) :
    let t := vanGComputeTable pow method n minPressureHead alpha expo
    (3 * (t.a (i + 1) - t.a i) ≤ spacing n minPressureHead * t.d i ∧ spacing n minPressureHead * t.d i ≤ 0) ∧
    3 * (t.a (i + 1) - t.a i) ≤ spacing n minPressureHead * t.d (i + 1) ∧ spacing n minPressureHead * t.d (i + 1) ≤ 0 := by
  intro t
  have hpos := spacing_pos h.points h.head
  have hfall : ∀ i, 0 ≤ i ∧ i < n → (t.a (i + 1) - t.a i) / (t.x (i + 1) - t.x i) ≤ 0 := by
    intro i hi
    rw [table_cell hi, table_a (by omega), table_a (by omega)]
    exact div_nonpos_of_nonpos_of_nonneg (sub_nonpos.mpr (h.sample_le hi.1)) hpos.le
  obtain ⟨⟨hlo, hlo'⟩, hhi, hhi'⟩ := splineSlopes_bound (by have := h.points; omega) hfall hi
  rw [table_cell hi] at hlo hhi
  have hscale : ∀ {u : K}, 3 * ((t.a (i + 1) - t.a i) / spacing n minPressureHead) ≤ u →
      3 * (t.a (i + 1) - t.a i) ≤ spacing n minPressureHead * u := by
    intro u hu
    have := mul_le_mul_of_nonneg_left hu hpos.le
    rwa [mul_left_comm, mul_div_cancel₀ _ hpos.ne'] at this
  exact ⟨⟨hscale hlo, mul_nonpos_of_nonneg_of_nonpos hpos.le hlo'⟩, hscale hhi, mul_nonpos_of_nonneg_of_nonpos hpos.le hhi'⟩

variable [FloorRing K]

theorem GoodTable.cell {x : K} (hx : 0 ≤ x) (hx' : x < |minPressureHead|) :
    0 ≤ ⌊x / spacing n minPressureHead⌋ ∧ ⌊x / spacing n minPressureHead⌋ < n - 1 := by
  have hpos := spacing_pos h.points h.head
  refine ⟨Int.floor_nonneg.mpr (div_nonneg hx hpos.le), Int.floor_lt.mpr ((div_lt_iff₀ hpos).mpr ?_)⟩
  rwa [spacing_mul h.points]

/-- The lookup in the range of the table is the cubic of its cell. -/
theorem GoodTable.lookupSpline {x : K} (hx : 0 ≤ x) (hx' : x < |minPressureHead|) :
    let t := vanGComputeTable pow method n minPressureHead alpha expo
    let i := ⌊x / spacing n minPressureHead⌋
    vanGLookupSpline x t .calcFcn = hermite (t.a i) (t.a (i + 1)) (spacing n minPressureHead * t.d i)
      (spacing n minPressureHead * t.d (i + 1)) ((x - i * spacing n minPressureHead) / spacing n minPressureHead) := by
  intro t i
  obtain ⟨hi, hin⟩ := h.cell hx hx'
  -- the guard on the index is not reached in the range of the table
  have hpt : (if t.numSamplePoints + 1 < i then t.numSamplePoints + 1 - 1 else i) = i :=
    if_neg (by show ¬ (n + 1 < i); omega)
  have hcalc : vanGLookupSpline x t .calcFcn =
      splineAt t.x t.a t.d (if t.numSamplePoints + 1 < i then t.numSamplePoints + 1 - 1 else i) x := if_neg (not_le.mpr hx')
  rw [hcalc, hpt]
  simp only [splineAt]
  rw [table_cell ⟨hi, by omega⟩, table_x ⟨hi, by omega⟩]
  unfold hermite
  ring

theorem GoodTable.lookupLinear (hmethod : method = 1) {x : K} (hx : 0 ≤ x) (hx' : x < |minPressureHead|) :
    let t := vanGComputeTable pow method n minPressureHead alpha expo
    let i := ⌊x / spacing n minPressureHead⌋
    vanGLookupLinear x t .calcFcn =
      t.a i + (t.a (i + 1) - t.a i) * ((x - i * spacing n minPressureHead) / spacing n minPressureHead) := by
  intro t i
  obtain ⟨hi, hin⟩ := h.cell hx hx'
  have hcalc : vanGLookupLinear x t .calcFcn = t.a i + t.slope i * (x - t.x i) := if_pos hx'
  have hslope : t.slope i = (t.a (i + 1) - t.a i) / spacing n minPressureHead := by
    have hmeth : t.slope = fill 0 n (fun index => (t.a (index + 1) - t.a index) / spacing n minPressureHead) fun _ => 0 :=
      if_pos hmethod
    rw [hmeth, fill_get _ _ ⟨hi, by omega⟩]
  rw [hcalc, hslope, table_x ⟨hi, by omega⟩]
  ring

theorem GoodTable.lookup_eq (hmethod : method = 0 ∨ method = 1) {x : K} (hx : 0 ≤ x) (hx' : x < |minPressureHead|) :
    lookup x (vanGComputeTable pow method n minPressureHead alpha expo) =
      pieceAt (vanGComputeTable pow method n minPressureHead alpha expo) (spacing n minPressureHead)
        ⌊x / spacing n minPressureHead⌋
        ((x - ⌊x / spacing n minPressureHead⌋ * spacing n minPressureHead) / spacing n minPressureHead) := by
  rcases hmethod with rfl | rfl
  · exact (if_pos rfl).trans ((h.lookupSpline hx hx').trans (if_pos rfl).symm)
  · exact (if_neg one_ne_zero).trans ((h.lookupLinear rfl hx hx').trans (if_neg one_ne_zero).symm)

omit h [IsStrictOrderedRing K] [FloorRing K] in
theorem lookup_outside [FloorRing K] {x : K} {t : VanGTable K} (hx : |t.minPressureHead| ≤ x) : lookup x t = 0 := by
  unfold lookup vanGLookupSpline vanGLookupLinear
  rw [if_pos hx, if_neg (not_lt.mpr hx), ite_self]

omit h [LinearOrder K] [IsStrictOrderedRing K] [FloorRing K] in
theorem pieceAt_ends (t : VanGTable K) (w : K) (i : ℤ) : pieceAt t w i 0 = t.a i ∧ pieceAt t w i 1 = t.a (i + 1) := by
  unfold pieceAt
  constructor
  · rw [hermite_zero, mul_zero, add_zero, ite_self]
  · rw [hermite_one, mul_one, add_sub_cancel, ite_self]

omit [FloorRing K] in
/-- A cell falls with either method. -/
theorem GoodTable.piece_le {i : ℤ} (hi : 0 ≤ i ∧ i < n) {s s' : K} (hs : 0 ≤ s) (hss : s ≤ s') (hs' : s' ≤ 1) :
    pieceAt (vanGComputeTable pow method n minPressureHead alpha expo) (spacing n minPressureHead) i s' ≤
      pieceAt (vanGComputeTable pow method n minPressureHead alpha expo) (spacing n minPressureHead) i s := by
  unfold pieceAt
  split_ifs
  · exact hermite_antitone (h.slopes hi).1 (h.slopes hi).2 hs hss hs'
  · rw [add_le_add_iff_left]
    refine mul_le_mul_of_nonpos_left hss ?_
    rw [table_a (by omega), table_a (by omega)]
    exact sub_nonpos.mpr (h.sample_le hi.1)

/-- The lookup in a table at a point of the table is the curve. -/
theorem GoodTable.lookup_point (hmethod : method = 0 ∨ method = 1) {i : ℤ} (hi : 0 ≤ i ∧ i < n - 1) :
    lookup (i * spacing n minPressureHead) (vanGComputeTable pow method n minPressureHead alpha expo) =
      sampleAt pow n minPressureHead alpha expo i := by
  have hpos := spacing_pos h.points h.head
  have hlt : i * spacing n minPressureHead < |minPressureHead| := by
    rw [← spacing_mul h.points]
    exact mul_lt_mul_of_pos_right (Int.cast_lt.mpr hi.2) hpos
  have hfloor : ⌊i * spacing n minPressureHead / spacing n minPressureHead⌋ = i := by
    rw [mul_div_cancel_right₀ _ hpos.ne', Int.floor_intCast]
  rw [h.lookup_eq hmethod (mul_nonneg (Int.cast_nonneg hi.1) hpos.le) hlt, hfloor, sub_self, zero_div,
    (pieceAt_ends _ _ _).1, table_a (by omega)]

/-- The lookup in a table falls, and stays between 0 and 1. -/
theorem GoodTable.lookup_antitone (hmethod : method = 0 ∨ method = 1) {x x' : K} (hx : 0 ≤ x) (hxx : x ≤ x') :
    lookup x' (vanGComputeTable pow method n minPressureHead alpha expo) ≤
      lookup x (vanGComputeTable pow method n minPressureHead alpha expo) ∧
    0 ≤ lookup x (vanGComputeTable pow method n minPressureHead alpha expo) ∧
    lookup x (vanGComputeTable pow method n minPressureHead alpha expo) ≤ 1 := by
  set t := vanGComputeTable pow method n minPressureHead alpha expo with ht
  have hpos := spacing_pos h.points h.head
  have hrange : (n - 1 : ℤ) * spacing n minPressureHead = |minPressureHead| := spacing_mul h.points
  -- in the range the lookup is made of cells that fall and join at the points
  have hfall : ∀ {u v : K}, 0 ≤ u → u ≤ v → v < |minPressureHead| → lookup v t ≤ lookup u t := by
    intro u v hu huv hv
    rw [h.lookup_eq hmethod hu (huv.trans_lt hv), h.lookup_eq hmethod (hu.trans huv) hv]
    exact antitone_of_pieces hpos (n := n - 1) (y := t.a)
      (fun i hi hin s s' hs hss hs' => h.piece_le ⟨hi, by omega⟩ hs hss hs')
      (fun i _ _ => (pieceAt_ends _ _ _).1) (fun i _ _ => (pieceAt_ends _ _ _).2) hu huv (by rwa [hrange])
  have hnonneg : ∀ {u : K}, 0 ≤ u → 0 ≤ lookup u t := by
    intro u hu
    rcases lt_or_ge u |minPressureHead| with hin | hout
    · -- above the value at the end of the cell
      obtain ⟨hi, hin'⟩ := h.cell hu hin
      have hp := cell_position hpos u
      rw [h.lookup_eq hmethod hu hin]
      refine le_trans ?_ (h.piece_le ⟨hi, by omega⟩ hp.1 hp.2 le_rfl)
      rw [(pieceAt_ends _ _ _).2, table_a (by omega)]
      exact h.nonneg _ (mul_nonneg (Int.cast_nonneg (by omega)) hpos.le)
    · exact (lookup_outside hout).ge
  have hzero : lookup 0 t = 1 := by
    have := h.lookup_point hmethod (i := 0) (by have := h.points; omega)
    rw [Int.cast_zero, zero_mul] at this
    rw [this]
    unfold sampleAt
    rw [Int.cast_zero, zero_mul, h.start]
  refine ⟨?_, hnonneg hx, ?_⟩
  · rcases lt_or_ge x' |minPressureHead| with hin | hout
    · exact hfall hx hxx hin
    · rw [lookup_outside hout]
      exact hnonneg hx
  · rcases lt_or_ge x |minPressureHead| with hin | hout
    · exact (hfall le_rfl hx hin).trans_eq hzero
    · rw [lookup_outside hout]
      exact zero_le_one

end Lookup

end ParFlow.Curves
