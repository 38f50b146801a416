import Mathlib.Analysis.SpecialFunctions.Pow.Deriv
import ParFlow.Curves.TableSpline

/-! The curves over the real numbers: the relative permeability falls with the pressure head, and the slopes that are
computed beside the values are the derivatives of these. -/

namespace ParFlow.Curves

open IntLoop

/-! ## The curve of the relative permeability -/

section Falling

variable {alpha n : ℝ}

/-- The curve by the share of the water that is held back. -/
theorem vanGRelPerm_eq (hα : 0 < alpha) (hn : 1 < n) {h : ℝ} (hh : 0 ≤ h) :
    vanGRelPerm (· ^ ·) .calcFcn alpha n h =
      (1 - ((alpha * h) ^ n / (1 + (alpha * h) ^ n)) ^ (1 - 1 / n)) ^ 2 / (1 + (alpha * h) ^ n) ^ ((1 - 1 / n) / 2) := by
  have hx : 0 ≤ alpha * h := mul_nonneg hα.le hh
  have hy : 0 ≤ (alpha * h) ^ n := Real.rpow_nonneg hx n
  have hpow : (alpha * h) ^ (n - 1) = ((alpha * h) ^ n) ^ (1 - 1 / n) := by
    rw [← Real.rpow_mul hx]
    congr 1
    field_simp
  simp only [vanGRelPerm]
  rw [hpow, Real.div_rpow hy (by linarith)]

/-- The share of the water that is held back. -/
theorem share_le_one (hα : 0 < alpha) {h : ℝ} (hh : 0 ≤ h) :
    0 ≤ (alpha * h) ^ n / (1 + (alpha * h) ^ n) ∧ (alpha * h) ^ n / (1 + (alpha * h) ^ n) ≤ 1 := by
  have hy : 0 ≤ (alpha * h) ^ n := Real.rpow_nonneg (mul_nonneg hα.le hh) n
  exact ⟨by positivity, (div_le_one (by linarith)).mpr (by linarith)⟩

theorem expo_nonneg (hn : 1 < n) : 0 ≤ 1 - 1 / n :=
  sub_nonneg.mpr ((div_le_one (by linarith)).mpr hn.le)

theorem vanGRelPerm_le (hα : 0 < alpha) (hn : 1 < n) {s t : ℝ} (hs : 0 ≤ s) (hst : s ≤ t) :
    vanGRelPerm (· ^ ·) .calcFcn alpha n t ≤ vanGRelPerm (· ^ ·) .calcFcn alpha n s := by
  have ht : 0 ≤ t := hs.trans hst
  have hm := expo_nonneg hn
  have hys : 0 ≤ (alpha * s) ^ n := Real.rpow_nonneg (mul_nonneg hα.le hs) n
  have hyt : (alpha * s) ^ n ≤ (alpha * t) ^ n :=
    Real.rpow_le_rpow (mul_nonneg hα.le hs) (mul_le_mul_of_nonneg_left hst hα.le) (by linarith)
  have hshare : (alpha * s) ^ n / (1 + (alpha * s) ^ n) ≤ (alpha * t) ^ n / (1 + (alpha * t) ^ n) := by
    rw [div_le_div_iff₀ (by linarith) (by linarith)]
    nlinarith
  rw [vanGRelPerm_eq hα hn ht, vanGRelPerm_eq hα hn hs]
  have hroot := Real.rpow_le_rpow (share_le_one (n := n) hα hs).1 hshare hm
  have hroot1 := Real.rpow_le_one (share_le_one (n := n) hα ht).1 (share_le_one hα ht).2 hm
  refine div_le_div₀ (sq_nonneg _) (pow_le_pow_left₀ (by linarith) (by linarith) 2) (by positivity) ?_
  exact Real.rpow_le_rpow (by linarith) (by linarith) (by linarith)

theorem vanGRelPerm_zero (hn : 1 < n) : vanGRelPerm (· ^ ·) .calcFcn alpha n 0 = 1 := by
  simp only [vanGRelPerm, mul_zero]
  rw [Real.zero_rpow (by linarith), Real.zero_rpow (by linarith)]
  simp

theorem vanGRelPerm_nonneg (hα : 0 < alpha) {h : ℝ} (hh : 0 ≤ h) : 0 ≤ vanGRelPerm (· ^ ·) .calcFcn alpha n h := by
  have hy : 0 ≤ (alpha * h) ^ n := Real.rpow_nonneg (mul_nonneg hα.le hh) n
  simp only [vanGRelPerm]
  positivity

theorem goodTable (hα : 0 < alpha) (hn : 1 < n) {points : ℤ} (hpoints : 2 ≤ points) {minPressureHead : ℝ}
    (hhead : minPressureHead ≠ 0) : GoodTable (· ^ ·) points minPressureHead alpha n where
  points := hpoints
  head := hhead
  falls := fun _ _ hs hst => vanGRelPerm_le hα hn hs hst
  start := vanGRelPerm_zero hn
  nonneg := fun _ ht => vanGRelPerm_nonneg hα ht

end Falling

/-! ## Values in a cell -/

section Cell

variable {alpha n minPressureHead density gravity : ℝ} {points method : ℤ}

/-- The curve that a region uses: the one of its table, or the curve itself. -/
noncomputable def regionCurve (alpha n : ℝ) (points : ℤ) (minPressureHead : ℝ) (method : ℤ) (h : ℝ) : ℝ :=
  if points = 0 then vanGRelPerm (· ^ ·) .calcFcn alpha n h
  else lookup h (vanGComputeTable (· ^ ·) method points minPressureHead alpha n)

theorem phaseRelPerm_eq (hmethod : method = 0 ∨ method = 1) (p : ℝ) :
    phaseRelPerm (· ^ ·) (RelPerm.vanGenuchtenNew (· ^ ·) alpha n points minPressureHead method) .calcFcn p density gravity =
      if 0 ≤ p then 1 else regionCurve alpha n points minPressureHead method (|p| / (density * gravity)) := by
  unfold regionCurve RelPerm.vanGenuchtenNew
  rcases eq_or_ne points 0 with hzero | hne
  · rw [if_neg (not_not.mpr hzero), if_pos hzero]
    rfl
  · rw [if_pos hne, if_neg hne]
    rcases hmethod with rfl | rfl
    · simp only [phaseRelPerm, lookup, belowZero, table_method, if_true]
    · simp only [phaseRelPerm, lookup, belowZero, table_method, one_ne_zero, if_false, if_true]

theorem regionCurve_le (hα : 0 < alpha) (hn : 1 < n) (hpoints : points = 0 ∨ 2 ≤ points) (hhead : minPressureHead ≠ 0)
    (hmethod : method = 0 ∨ method = 1) {s t : ℝ} (hs : 0 ≤ s) (hst : s ≤ t) :
    regionCurve alpha n points minPressureHead method t ≤ regionCurve alpha n points minPressureHead method s ∧
    0 ≤ regionCurve alpha n points minPressureHead method s ∧ regionCurve alpha n points minPressureHead method s ≤ 1 := by
  unfold regionCurve
  rcases hpoints with hzero | hpoints
  · rw [if_pos hzero, if_pos hzero]
    refine ⟨vanGRelPerm_le hα hn hs hst, vanGRelPerm_nonneg hα hs, ?_⟩
    exact (vanGRelPerm_le hα hn le_rfl hs).trans_eq (vanGRelPerm_zero hn)
  · have hne : points ≠ 0 := by omega
    rw [if_neg hne, if_neg hne]
    exact (goodTable hα hn hpoints hhead).lookup_antitone hmethod hs hst

/-- The relative permeability rises with the pressure from 0 to 1, with and without a table and with either way to
interpolate, and at the points of a table it is the curve. -/
theorem phaseRelPerm_monotone (hα : 0 < alpha) (hn : 1 < n) (hpoints : points = 0 ∨ 2 ≤ points) (hhead : minPressureHead ≠ 0)
    (hmethod : method = 0 ∨ method = 1) (hρ : 0 < density * gravity) :
    let relPerm := fun p => phaseRelPerm (· ^ ·) (RelPerm.vanGenuchtenNew (· ^ ·) alpha n points minPressureHead method)
      .calcFcn p density gravity
    Monotone relPerm ∧ (∀ p, 0 ≤ relPerm p ∧ relPerm p ≤ 1) ∧
    (points ≠ 0 → ∀ i, 0 ≤ i ∧ i < points - 1 → relPerm (-(i * spacing points minPressureHead * (density * gravity))) =
      vanGRelPerm (· ^ ·) .calcFcn alpha n (i * spacing points minPressureHead)) := by
  intro relPerm
  have heq : ∀ p, relPerm p = if 0 ≤ p then 1 else
      regionCurve alpha n points minPressureHead method (|p| / (density * gravity)) := fun p => phaseRelPerm_eq hmethod p
  have hcurve : ∀ {s t : ℝ}, 0 ≤ s → s ≤ t → _ := fun hs hst => regionCurve_le hα hn hpoints hhead hmethod hs hst
  have hhead0 : ∀ p : ℝ, 0 ≤ |p| / (density * gravity) := fun p => div_nonneg (abs_nonneg p) hρ.le
  refine ⟨fun p q hpq => ?_, fun p => ?_, fun hne i hi => ?_⟩
  · rw [heq, heq]
    split_ifs with hp hq hq
    · exact le_rfl
    · exact absurd (hp.trans hpq) hq
    · exact (hcurve (hhead0 p) le_rfl).2.2
    · have habs : |q| ≤ |p| := by
        rw [abs_of_neg (not_le.mp hp), abs_of_neg (not_le.mp hq)]
        linarith
      exact (hcurve (hhead0 q) (div_le_div_of_nonneg_right habs hρ.le)).1
  · rw [heq]
    split_ifs
    · exact ⟨zero_le_one, le_rfl⟩
    · exact (hcurve (hhead0 p) le_rfl).2
  · have hpoints' : 2 ≤ points := hpoints.resolve_left hne
    have hpos := spacing_pos hpoints' hhead
    rw [heq]
    rcases hi.1.eq_or_lt with rfl | hi0
    · rw [if_pos (by simp), Int.cast_zero, zero_mul, vanGRelPerm_zero hn]
    · have hneg : 0 < i * spacing points minPressureHead * (density * gravity) :=
        mul_pos (mul_pos (Int.cast_pos.mpr hi0) hpos) hρ
      rw [if_neg (by linarith), abs_neg, abs_of_pos hneg, mul_div_cancel_right₀ _ hρ.ne']
      exact (if_neg hne).trans ((goodTable hα hn hpoints' hhead).lookup_point hmethod hi)

/-- A loam with a table of five points, at the pressures that are tabulated. -/
theorem loam_phaseRelPerm_monotone :
    let relPerm := fun p : ℝ =>
      phaseRelPerm (· ^ ·) (RelPerm.vanGenuchtenNew (· ^ ·) 3 2 5 (-8) 0) .calcFcn p 1 1
    Monotone relPerm ∧ (∀ p, 0 ≤ relPerm p ∧ relPerm p ≤ 1) ∧
    ((5 : ℤ) ≠ 0 → ∀ i : ℤ, 0 ≤ i ∧ i < 5 - 1 → relPerm (-((i : ℝ) * spacing 5 (-8) * (1 * 1))) =
      vanGRelPerm (· ^ ·) .calcFcn 3 2 ((i : ℝ) * spacing 5 (-8))) :=
  phaseRelPerm_monotone (by norm_num) (by norm_num) (Or.inr (by decide)) (by norm_num) (Or.inl rfl) (by norm_num)

end Cell

/-! ## Slopes -/

section Slopes

variable {alpha n h : ℝ}

theorem hasDerivAt_scaled_rpow (hα : 0 < alpha) (hh : 0 < h) (e : ℝ) :
    HasDerivAt (fun h => (alpha * h) ^ e) (alpha * e * (alpha * h) ^ (e - 1)) h := by
  have hx : HasDerivAt (fun h => alpha * h) alpha h := by simpa using (hasDerivAt_id h).const_mul alpha
  exact hx.rpow_const (Or.inl (mul_pos hα hh).ne')

theorem hasDerivAt_opahn_rpow (hα : 0 < alpha) (hh : 0 < h) (e : ℝ) :
    HasDerivAt (fun h => (1 + (alpha * h) ^ n) ^ e)
      (alpha * n * (alpha * h) ^ (n - 1) * e * (1 + (alpha * h) ^ n) ^ (e - 1)) h := by
  have hpos : 0 < 1 + (alpha * h) ^ n := by positivity
  exact ((hasDerivAt_scaled_rpow hα hh n).const_add 1).rpow_const (Or.inl hpos.ne')

/-- The slope of the relative permeability is the one by which it falls with the head. -/
theorem hasDerivAt_vanGRelPerm (hα : 0 < alpha) (hh : 0 < h) :
    HasDerivAt (vanGRelPerm (· ^ ·) .calcFcn alpha n) (-vanGRelPerm (· ^ ·) .calcDer alpha n h) h := by
  set m := 1 - 1 / n with hm
  have ho : 0 < 1 + (alpha * h) ^ n := by positivity
  have hcurve : ∀ᶠ t in nhds h, vanGRelPerm (· ^ ·) .calcFcn alpha n t =
      (1 - (alpha * t) ^ (n - 1) * (1 + (alpha * t) ^ n) ^ (-m)) ^ 2 * (1 + (alpha * t) ^ n) ^ (-(m / 2)) := by
    filter_upwards [Ioi_mem_nhds hh] with t ht
    have ht : 0 < t := ht
    have ho : 0 ≤ 1 + (alpha * t) ^ n := by positivity
    simp only [vanGRelPerm]
    rw [Real.rpow_neg ho, Real.rpow_neg ho]
    rfl
  have hcoeff := ((hasDerivAt_scaled_rpow hα hh (n - 1)).mul (hasDerivAt_opahn_rpow (n := n) hα hh (-m))).const_sub 1
  have hprod := (hcoeff.pow 2).mul (hasDerivAt_opahn_rpow (n := n) hα hh (-(m / 2)))
  refine (hprod.congr_of_eventuallyEq hcurve).congr_deriv ?_
  have hdiv : ∀ c e : ℝ, c / (1 + (alpha * h) ^ n) ^ e = c * (1 + (alpha * h) ^ n) ^ (-e) := fun c e => by
    rw [Real.rpow_neg ho.le, div_eq_mul_inv]
  simp only [vanGRelPerm, Pi.mul_apply, Pi.pow_apply]
  rw [hdiv, ← hm, show n - 1 - 1 = n - 2 by ring, show -m - 1 = -(m + 1) by ring,
    show -(m / 2) - 1 = -(m + 2) / 2 by ring]
  push_cast
  ring

theorem hasDerivAt_vanGSaturation (hα : 0 < alpha) (hh : 0 < h) (sRes sDif : ℝ) :
    HasDerivAt (vanGSaturation (· ^ ·) .calcFcn alpha n sRes sDif)
      (-vanGSaturation (· ^ ·) .calcDer alpha n sRes sDif h) h := by
  set m := 1 - 1 / n with hm
  have ho : 0 < 1 + (alpha * h) ^ n := by positivity
  have hcurve : ∀ᶠ t in nhds h, vanGSaturation (· ^ ·) .calcFcn alpha n sRes sDif t =
      sDif * (1 + (alpha * t) ^ n) ^ (-m) + sRes := by
    filter_upwards [Ioi_mem_nhds hh] with t ht
    have ht : 0 < t := ht
    have ho : 0 ≤ 1 + (alpha * t) ^ n := by positivity
    simp only [vanGSaturation]
    rw [Real.rpow_neg ho]
    rfl
  have hder := ((hasDerivAt_opahn_rpow (n := n) hα hh (-m)).const_mul sDif).add_const sRes
  refine (hder.congr_of_eventuallyEq hcurve).congr_deriv ?_
  simp only [vanGSaturation]
  rw [← hm, show -m - 1 = -(m + 1) by ring, Real.rpow_neg ho.le]
  ring

/-- The hyperbola of the curves of Haverkamp. -/
theorem hasDerivAt_hyperbola {A e c : ℝ} (hA : 0 < A) (hh : 0 < h) :
    HasDerivAt (fun t : ℝ => c / (A + t ^ e)) (-(c * e * h ^ (e - 1) / (A + h ^ e) ^ 2)) h := by
  have hpos : 0 < A + h ^ e := by positivity
  have hden : HasDerivAt (fun t : ℝ => A + t ^ e) (e * h ^ (e - 1)) h :=
    (Real.hasDerivAt_rpow_const (Or.inl hh.ne')).const_add A
  refine ((hasDerivAt_const h c).div hden hpos.ne').congr_deriv ?_
  ring

/-- From the head to the pressure. -/
theorem hasDerivAt_belowZero {curve : ℝ → ℝ} {slope saturated p density gravity : ℝ} (hp : p < 0)
    (hcurve : HasDerivAt curve (-slope) (|p| / (density * gravity))) :
    HasDerivAt (fun p => belowZero saturated curve p density gravity) (slope / (density * gravity)) p := by
  have hhead : HasDerivAt (fun p : ℝ => -p / (density * gravity)) (-1 / (density * gravity)) p :=
    (hasDerivAt_neg p).div_const _
  rw [abs_of_neg hp] at hcurve
  have hlocal : ∀ᶠ q in nhds p, belowZero saturated curve q density gravity = curve (-q / (density * gravity)) := by
    filter_upwards [Iio_mem_nhds hp] with q hq
    have hq : q < 0 := hq
    unfold belowZero
    rw [if_neg (not_le.mpr hq), abs_of_neg hq]
  refine ((hcurve.comp p hhead).congr_of_eventuallyEq hlocal).congr_deriv ?_
  ring

theorem hasDerivAt_aboveZero {curve : ℝ → ℝ} {saturated p density gravity : ℝ} (hp : 0 < p) :
    HasDerivAt (fun p => belowZero saturated curve p density gravity) 0 p := by
  have hlocal : ∀ᶠ q in nhds p, belowZero saturated curve q density gravity = saturated := by
    filter_upwards [Ioi_mem_nhds hp] with q hq
    exact if_pos (le_of_lt hq)
  exact (hasDerivAt_const p saturated).congr_of_eventuallyEq hlocal

/-! The sums of the polynomials, term by term -/

theorem hasDerivAt_sum (coeffs : ℤ → ℝ) {p : ℝ} (l : List ℤ) (hl : ∀ dg ∈ l, p ≠ 0 ∨ 0 ≤ dg) {acc : ℝ → ℝ} {slope : ℝ}
    (hacc : HasDerivAt acc slope p) :
    HasDerivAt (fun q => l.foldl (fun sum dg => sum + coeffs dg * q ^ dg) (acc q))
      (l.foldl (fun sum dg => sum + coeffs dg * dg * p ^ (dg - 1)) slope) p := by
  induction l generalizing acc slope with
  | nil => exact hacc
  | cons dg l ih =>
    have hterm : HasDerivAt (fun q => coeffs dg * q ^ dg) (coeffs dg * dg * p ^ (dg - 1)) p := by
      rw [mul_assoc]
      exact (hasDerivAt_zpow dg p (hl dg List.mem_cons_self)).const_mul _
    exact ih (fun k hk => hl k (List.mem_cons_of_mem _ hk)) (hacc.add hterm)

/-- The loop for the slope may leave out the constant term. -/
theorem sum_first {first degree : ℤ} (hfirst : first = 0 ∨ first = 1) (coeffs : ℤ → ℝ) (p : ℝ) :
    (upto first (degree + 1)).foldl (fun sum dg => sum + coeffs dg * dg * p ^ (dg - 1)) 0 =
      (upto 0 (degree + 1)).foldl (fun sum dg => sum + coeffs dg * dg * p ^ (dg - 1)) 0 := by
  rcases hfirst with rfl | rfl
  · rfl
  rcases lt_or_ge degree 0 with hneg | hnonneg
  · rw [upto_eq_nil (by omega), upto_eq_nil (by omega)]
  · have hcons : upto 0 (degree + 1) = 0 :: upto (0 + 1) (degree + 1) := upto_cons (by omega)
    rw [hcons, List.foldl_cons, Int.cast_zero, mul_zero, zero_mul, add_zero, zero_add]

theorem hasDerivAt_polynomial {first degree : ℤ} (hfirst : first = 0 ∨ first = 1) (coeffs : ℤ → ℝ) {p : ℝ} (hp : p ≠ 0) :
    HasDerivAt (polynomial .calcFcn first degree coeffs) (polynomial .calcDer first degree coeffs p) p := by
  have hlocal : ∀ᶠ q in nhds p, polynomial .calcFcn first degree coeffs q =
      (upto 0 (degree + 1)).foldl (fun sum dg => sum + coeffs dg * q ^ dg) 0 := by
    filter_upwards [isOpen_ne.mem_nhds hp] with q hq
    exact if_neg hq
  have hsum := hasDerivAt_sum coeffs (upto 0 (degree + 1)) (fun _ _ => Or.inl hp) (hasDerivAt_const p 0)
  refine (hsum.congr_of_eventuallyEq hlocal).congr_deriv ?_
  rw [← sum_first hfirst]
  exact (if_neg hp).symm

end Slopes

/-! ## The values that Newton's method uses -/

section Derivatives

variable {p density gravity : ℝ}

def Saturation.Valid : Saturation ℝ → Prop
  | .vanGenuchten alpha _ _ _ => 0 < alpha
  | .haverkamp alpha _ _ _ => 0 < alpha
  | _ => True

/-- The unit of the pressure in which a type gives its slope: the one of the head, or that of the input. -/
def Saturation.unit (cell : Saturation ℝ) (weight : ℝ) : ℝ :=
  match cell with
  | .vanGenuchten _ _ _ _ => weight
  | .haverkamp _ _ _ _ => weight
  | _ => 1

/-- What `CALCDER` gives for the saturation is the derivative of what `CALCFCN` gives, by the pressure head for the types
with a head and by the pressure for the others. -/
theorem saturation_hasDerivAt (cell : Saturation ℝ) (hcell : cell.Valid) (hρ : 0 < density * gravity) (hp : p ≠ 0) :
    HasDerivAt (fun p => saturation (· ^ ·) cell .calcFcn p density gravity)
      (saturation (· ^ ·) cell .calcDer p density gravity / cell.unit (density * gravity)) p := by
  have hhead : p < 0 → 0 < |p| / (density * gravity) := fun hneg => div_pos (abs_pos.mpr hneg.ne) hρ
  cases cell with
  | constant value => simpa [saturation] using hasDerivAt_const p value
  | pfbFile value => simpa [saturation] using hasDerivAt_const p value
  | vanGenuchten alpha n sRes sDif =>
    simp only [saturation, Saturation.unit]
    rcases lt_or_gt_of_ne hp with hneg | hpos
    · refine (hasDerivAt_belowZero hneg (hasDerivAt_vanGSaturation hcell (hhead hneg) sRes sDif)).congr_deriv ?_
      exact congrArg (· / (density * gravity)) (if_neg (not_le.mpr hneg)).symm
    · refine (hasDerivAt_aboveZero hpos).congr_deriv ?_
      rw [belowZero, if_pos hpos.le, zero_div]
  | haverkamp alpha beta sRes sDif =>
    simp only [saturation, Saturation.unit]
    rcases lt_or_gt_of_ne hp with hneg | hpos
    · refine (hasDerivAt_belowZero hneg
        ((hasDerivAt_hyperbola (c := alpha * sDif) (e := beta) hcell (hhead hneg)).add_const sRes)).congr_deriv ?_
      exact congrArg (· / (density * gravity)) (if_neg (not_le.mpr hneg)).symm
    · refine (hasDerivAt_aboveZero hpos).congr_deriv ?_
      rw [belowZero, if_pos hpos.le, zero_div]
  | polynomial degree coeffs =>
    simp only [saturation, Saturation.unit, div_one]
    exact hasDerivAt_polynomial (Or.inl rfl) coeffs hp

theorem sand_saturation_hasDerivAt :
    HasDerivAt (fun p : ℝ => saturation (· ^ ·) (.vanGenuchten 3 2 (1 / 5) (4 / 5)) .calcFcn p 1 1)
      (saturation (· ^ ·) (.vanGenuchten 3 2 (1 / 5) (4 / 5)) .calcDer (-2) 1 1 / (1 * 1)) (-2) :=
  saturation_hasDerivAt (.vanGenuchten 3 2 (1 / 5) (4 / 5)) (by norm_num [Saturation.Valid]) (by norm_num) (by norm_num)

/-- The types whose values are not looked up in a table. -/
def RelPerm.Valid : RelPerm ℝ → Prop
  | .vanGenuchten alpha _ none => 0 < alpha
  | .vanGenuchten _ _ (some _) => False
  | .haverkamp A _ => 0 < A
  | _ => True

/-- What is missing in the slope of a type: the unit of the head, and for the curve of Haverkamp the term `A` of its
denominator. -/
noncomputable def RelPerm.factor (region : RelPerm ℝ) (p weight : ℝ) : ℝ :=
  match region with
  | .vanGenuchten _ _ _ => 1 / weight
  | .haverkamp A gamma => ((|p| / weight) ^ gamma / (A + (|p| / weight) ^ gamma)) ^ 2 / weight
  | _ => 1

/-- The derivatives of the relative permeability. The slope for the curve of Haverkamp is too steep, since its denominator is
that of the power alone. -/
theorem phaseRelPerm_hasDerivAt (region : RelPerm ℝ) (hregion : region.Valid) (hρ : 0 < density * gravity) (hp : p ≠ 0) :
    HasDerivAt (fun p => phaseRelPerm (· ^ ·) region .calcFcn p density gravity)
      (phaseRelPerm (· ^ ·) region .calcDer p density gravity * region.factor p (density * gravity)) p := by
  have hhead : p < 0 → 0 < |p| / (density * gravity) := fun hneg => div_pos (abs_pos.mpr hneg.ne) hρ
  match region, hregion with
  | .constant value, _ => simpa [phaseRelPerm] using hasDerivAt_const p value
  | .vanGenuchten alpha n none, hα =>
    simp only [phaseRelPerm, RelPerm.factor, mul_one_div]
    rcases lt_or_gt_of_ne hp with hneg | hpos
    · refine (hasDerivAt_belowZero hneg (hasDerivAt_vanGRelPerm hα (hhead hneg))).congr_deriv ?_
      exact congrArg (· / (density * gravity)) (if_neg (not_le.mpr hneg)).symm
    · refine (hasDerivAt_aboveZero hpos).congr_deriv ?_
      rw [belowZero, if_pos hpos.le, zero_div]
  | .haverkamp A gamma, hA =>
    have hA : 0 < A := hA
    simp only [phaseRelPerm, RelPerm.factor]
    rcases lt_or_gt_of_ne hp with hneg | hpos
    · refine (hasDerivAt_belowZero hneg (hasDerivAt_hyperbola (c := A) (e := gamma) hA (hhead hneg))).congr_deriv ?_
      have hpow : 0 < (|p| / (density * gravity)) ^ gamma := Real.rpow_pos_of_pos (hhead hneg) _
      rw [belowZero, if_neg (not_le.mpr hneg)]
      simp only [haverkampRelPerm]
      -- the source divides by the square of the power, the derivative by that of the sum
      have hsum : A + (|p| / (density * gravity)) ^ gamma ≠ 0 := by linarith
      field_simp
    · refine (hasDerivAt_aboveZero hpos).congr_deriv ?_
      rw [belowZero, if_pos hpos.le, zero_mul]
  | .polynomial degree coeffs, _ =>
    simp only [phaseRelPerm, RelPerm.factor, mul_one]
    exact hasDerivAt_polynomial (Or.inr rfl) coeffs hp

theorem clay_phaseRelPerm_hasDerivAt :
    HasDerivAt (fun p : ℝ => phaseRelPerm (· ^ ·) (.haverkamp 2 3) .calcFcn p 1 1)
      (phaseRelPerm (· ^ ·) (.haverkamp 2 3) .calcDer (-1) 1 1 *
        (((|(-1)| / (1 * 1)) ^ (3 : ℝ) / (2 + (|(-1)| / (1 * 1)) ^ (3 : ℝ))) ^ 2 / (1 * 1))) (-1) :=
  phaseRelPerm_hasDerivAt (.haverkamp 2 3) (by norm_num [RelPerm.Valid]) (by norm_num) (by norm_num)

/-- The sums at zero. -/
theorem sum_at_zero {degree : ℤ} (hdegree : 0 ≤ degree) (coeffs : ℤ → ℝ) :
    (upto 0 (degree + 1)).foldl (fun sum dg => sum + coeffs dg * (0 : ℝ) ^ dg) 0 = coeffs 0 ∧
    (upto 0 (degree + 1)).foldl (fun sum dg => sum + coeffs dg * dg * (0 : ℝ) ^ (dg - 1)) 0 =
      if degree = 0 then 0 else coeffs 1 := by
  have hskip : ∀ {lo : ℤ} {term : ℤ → ℝ} (a : ℝ), (∀ dg, lo ≤ dg → term dg = 0) →
      (upto lo (degree + 1)).foldl (fun sum dg => sum + term dg) a = a := fun a hterm =>
    PointLoop.foldl_get_of_keep id (fun s dg hdg => by rw [hterm dg (mem_upto.mp hdg).1, add_zero]) a
  constructor
  · rw [upto_cons (by omega), List.foldl_cons, hskip _ fun dg hdg => by rw [zero_zpow dg (by omega), mul_zero]]
    simp
  · rw [upto_cons (by omega), List.foldl_cons]
    split_ifs with hzero
    · rw [hzero, upto_eq_nil (by decide)]
      simp
    · rw [upto_cons (by omega), List.foldl_cons, hskip _ fun dg hdg => by rw [zero_zpow (dg - 1) (by omega), mul_zero]]
      simp

/-- At pressure zero the polynomials give no slope, which is right where there is no linear term. -/
theorem polynomial_hasDerivAt_zero_iff {first degree : ℤ} (hdegree : 0 ≤ degree) (coeffs : ℤ → ℝ) :
    HasDerivAt (polynomial .calcFcn first degree coeffs) (polynomial .calcDer first degree coeffs 0) 0 ↔
      degree = 0 ∨ coeffs 1 = 0 := by
  obtain ⟨hvalue, hslope⟩ := sum_at_zero hdegree coeffs
  have hsum : polynomial .calcFcn first degree coeffs =
      fun q => (upto 0 (degree + 1)).foldl (fun sum dg => sum + coeffs dg * q ^ dg) 0 := by
    funext q
    unfold polynomial
    simp only
    split_ifs with hq
    · rw [hq, hvalue]
    · rfl
  -- the sum is smooth at zero, and the linear term is its slope there
  have hder := hasDerivAt_sum coeffs (upto 0 (degree + 1)) (fun _ h => Or.inr (mem_upto.mp h).1)
    (hasDerivAt_const (0 : ℝ) (0 : ℝ))
  rw [hslope] at hder
  have hzero : polynomial .calcDer first degree coeffs 0 = 0 := if_pos rfl
  rw [hsum, hzero]
  constructor
  · intro h
    have heq := h.unique hder
    by_cases hdeg : degree = 0
    · exact Or.inl hdeg
    · rw [if_neg hdeg] at heq
      exact Or.inr heq.symm
  · intro h
    refine hder.congr_deriv ?_
    rcases h with hdeg | hcoeff
    · exact if_pos hdeg
    · rw [hcoeff, ite_self]

theorem linear_hasDerivAt_zero_iff :
    HasDerivAt (polynomial .calcFcn 0 1 fun _ => 2) (polynomial .calcDer 0 1 (fun _ => 2) 0) (0 : ℝ) ↔
      (1 : ℤ) = 0 ∨ (2 : ℝ) = 0 :=
  polynomial_hasDerivAt_zero_iff (by decide) fun _ => 2

end Derivatives

end ParFlow.Curves
