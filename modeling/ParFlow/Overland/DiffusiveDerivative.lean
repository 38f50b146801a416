import ParFlow.Lib.LinearPower
import ParFlow.Overland.DiffusiveCells

/-! The derivatives that the diffusive evaluation computes for one face are those of the flux through it, over the
reals. -/

namespace ParFlow

namespace AxisView

variable {K : Type} (v : AxisView K) (t : K)

def withDown : AxisView K := { v with down := t }

def withUp : AxisView K := { v with up := t }

end AxisView

namespace DiffusiveData

open Filter Topology LinearPower

/-- `RPowerR` with real numbers. -/
noncomputable def realRPowerR (base exponent : ℝ) : ℝ := rPowerR (fun b => b ^ exponent) base

theorem realRPowerR_of_pos {x : ℝ} (hx : 0 < x) (r : ℝ) : realRPowerR x r = x ^ r := if_neg (not_le.mpr hx)

theorem pfmax_of_pos {x : ℝ} (hx : 0 < x) : pfmax x 0 = x := if_neg (not_lt.mpr hx.le)

theorem rpow_fiveThirds {x : ℝ} (hx : 0 < x) : x ^ (5 / 3 : ℝ) = x * x ^ (2 / 3 : ℝ) := by
  rw [rpow_eq_mul_rpow_sub_one hx, show (5 / 3 : ℝ) - 1 = 2 / 3 by norm_num]

variable {a b x res : ℝ}

/-- A flux whose depth varies with the friction slope. -/
theorem hasDerivAt_diffusiveFlux (hx : 0 < x) (a b res : ℝ) :
    HasDerivAt (fun t => diffusiveFlux realRPowerR (a + b * t) res t)
      (-(b * x ^ (5 / 3 : ℝ) + (a + b * x) * (5 / 3 * x ^ (2 / 3 : ℝ))) / res) x := by
  have h : HasDerivAt (fun t => (a + b * t) * t ^ (5 / 3 : ℝ)) _ x := hasDerivAt_linear_mul_rpow hx
  rw [show (5 / 3 : ℝ) - 1 = 2 / 3 by norm_num] at h
  refine (h.fun_neg.div_const res).congr_of_eventuallyEq ?_
  filter_upwards [lt_mem_nhds hx] with t ht
  unfold diffusiveFlux
  rw [realRPowerR_of_pos ht]
  ring

theorem hasDerivAt_diffusiveFlux_const (a b x res press : ℝ) :
    HasDerivAt (fun t => diffusiveFlux realRPowerR (a + b * t) res press) (-(b / res) * realRPowerR press (5 / 3)) x :=
  ((hasDerivAt_linear a b x).div_const res).fun_neg.mul_const (realRPowerR press (5 / 3))

/-! ## Between two columns -/

section Upper

variable {v : AxisView ℝ}

theorem upperFlux_of_neg {rPow : ℝ → ℝ → ℝ} (h : v.sf < 0) : upperFlux rPow v res = diffusiveFlux rPow v.sf res v.down := by
  unfold upperFlux upstreamMean
  rw [if_pos (by linarith)]

theorem upperFlux_of_pos {rPow : ℝ → ℝ → ℝ} (h : 0 < v.sf) : upperFlux rPow v res = diffusiveFlux rPow v.sf res v.up := by
  unfold upperFlux upstreamMean
  rw [if_neg (by linarith)]

/-- The friction slope as a function of the depth of the column. -/
theorem sf_down (v : AxisView ℝ) (t : ℝ) : (v.withDown t).sf = (v.slope + v.up / v.d) + -(1 / v.d) * t := by
  simp only [AxisView.sf, AxisView.withDown, frictionSlope]
  ring

/-- The friction slope as a function of the depth of the next column. -/
theorem sf_up (v : AxisView ℝ) (t : ℝ) : (v.withUp t).sf = (v.slope - v.down / v.d) + 1 / v.d * t := by
  simp only [AxisView.sf, AxisView.withUp, frictionSlope]
  ring

theorem continuousAt_linear (a b x : ℝ) : ContinuousAt (fun t => a + b * t) x := (hasDerivAt_linear a b x).continuousAt

theorem hasDerivAt_upperFlux_down (hdown : 0 < v.down) (hd : v.d ≠ 0) (hsf : v.sf ≠ 0) :
    HasDerivAt (fun t => upperFlux realRPowerR (v.withDown (pfmax t 0)) res) (upperHigh realRPowerR v res) v.down := by
  have hsfv : v.sf = (v.slope + v.up / v.d) + -(1 / v.d) * v.down := sf_down v v.down
  have hcont := continuousAt_linear (v.slope + v.up / v.d) (-(1 / v.d)) v.down
  rcases lt_or_gt_of_ne hsf with hneg | hpos
  · have h := hasDerivAt_diffusiveFlux hdown (v.slope + v.up / v.d) (-(1 / v.d)) res
    refine (h.congr_of_eventuallyEq ?_).congr_deriv ?_
    · filter_upwards [lt_mem_nhds hdown, eventually_neg hcont (hsfv ▸ hneg)] with t ht htneg
      rw [← sf_down v t] at htneg ⊢
      rw [pfmax_of_pos ht, upperFlux_of_neg htneg]
      rfl
    · rw [upperHigh, derHigh, if_pos hneg, realRPowerR_of_pos hdown, realRPowerR_of_pos hdown, rpow_fiveThirds hdown]
      field_simp
      ring
  · have h := hasDerivAt_diffusiveFlux_const (v.slope + v.up / v.d) (-(1 / v.d)) v.down res v.up
    refine (h.congr_of_eventuallyEq ?_).congr_deriv ?_
    · filter_upwards [lt_mem_nhds hdown, eventually_pos hcont (hsfv ▸ hpos)] with t ht htpos
      rw [← sf_down v t] at htpos ⊢
      rw [pfmax_of_pos ht, upperFlux_of_pos htpos]
      rfl
    · rw [upperHigh, derHigh, if_neg (not_lt.mpr hpos.le)]
      field_simp

theorem hasDerivAt_upperFlux_up (hup : 0 < v.up) (hd : v.d ≠ 0) (hsf : v.sf ≠ 0) :
    HasDerivAt (fun t => upperFlux realRPowerR (v.withUp (pfmax t 0)) res) (upperLow realRPowerR v res) v.up := by
  have hsfv : v.sf = (v.slope - v.down / v.d) + 1 / v.d * v.up := sf_up v v.up
  have hcont := continuousAt_linear (v.slope - v.down / v.d) (1 / v.d) v.up
  rcases lt_or_gt_of_ne hsf with hneg | hpos
  · have h := hasDerivAt_diffusiveFlux_const (v.slope - v.down / v.d) (1 / v.d) v.up res v.down
    refine (h.congr_of_eventuallyEq ?_).congr_deriv ?_
    · filter_upwards [lt_mem_nhds hup, eventually_neg hcont (hsfv ▸ hneg)] with t ht htneg
      rw [← sf_up v t] at htneg ⊢
      rw [pfmax_of_pos ht, upperFlux_of_neg htneg]
      rfl
    · rw [upperLow, derLow, if_pos hneg]
      field_simp
  · have h := hasDerivAt_diffusiveFlux hup (v.slope - v.down / v.d) (1 / v.d) res
    refine (h.congr_of_eventuallyEq ?_).congr_deriv ?_
    · filter_upwards [lt_mem_nhds hup, eventually_pos hcont (hsfv ▸ hpos)] with t ht htpos
      rw [← sf_up v t] at htpos ⊢
      rw [pfmax_of_pos ht, upperFlux_of_pos htpos]
      rfl
    · rw [upperLow, derLow, if_neg (not_lt.mpr hpos.le), realRPowerR_of_pos hup, realRPowerR_of_pos hup, rpow_fiveThirds hup]
      field_simp
      ring

end Upper

/-! ## On a lower boundary -/

section Lower

variable {v : AxisView ℝ} {d : ℝ}

theorem sfLow_down (v : AxisView ℝ) (d t : ℝ) : (v.withDown t).sfLow d = v.slope + 1 / d * t := by
  simp only [AxisView.sfLow, AxisView.withDown, frictionSlope]
  ring

/-- The flux over a lower boundary, 0 where there is none. -/
theorem hasDerivAt_lowerFlux (hdown : 0 < v.down) (hd : d ≠ 0) (hsf : v.sfLow d ≠ 0) :
    HasDerivAt (fun t => let u := v.withDown (pfmax t 0)
        if 0 < u.sfLow d then diffusiveFlux realRPowerR (u.sfLow d) res u.down else 0)
      (if v.sfLow d < 0 then 0 else derBoundary realRPowerR v.slope d res v.down) v.down := by
  have hsfv : v.sfLow d = v.slope + 1 / d * v.down := sfLow_down v d v.down
  have hcont := continuousAt_linear v.slope (1 / d) v.down
  rcases lt_or_gt_of_ne hsf with hneg | hpos
  · rw [if_pos hneg]
    refine (hasDerivAt_const v.down (0 : ℝ)).congr_of_eventuallyEq ?_
    filter_upwards [lt_mem_nhds hdown, eventually_neg hcont (hsfv ▸ hneg)] with t ht htneg
    rw [← sfLow_down v d t] at htneg
    rw [pfmax_of_pos ht]
    exact if_neg (not_lt.mpr htneg.le)
  · rw [if_neg (not_lt.mpr hpos.le)]
    refine ((hasDerivAt_diffusiveFlux hdown v.slope (1 / d) res).congr_of_eventuallyEq ?_).congr_deriv ?_
    · filter_upwards [lt_mem_nhds hdown, eventually_pos hcont (hsfv ▸ hpos)] with t ht htpos
      rw [← sfLow_down v d t] at htpos ⊢
      rw [pfmax_of_pos ht]
      exact if_pos htpos
    · rw [derBoundary, realRPowerR_of_pos hdown, realRPowerR_of_pos hdown, rpow_fiveThirds hdown]
      field_simp
      ring

/-- The derivative in closed form. -/
theorem derBoundary_eq (hdown : 0 < v.down) (hd : d ≠ 0) : derBoundary realRPowerR v.slope d res v.down =
    -(v.down ^ (2 / 3 : ℝ) / 3) * ((5 * v.slope + 8 * v.down / d) / res) := by
  rw [derBoundary, realRPowerR_of_pos hdown, realRPowerR_of_pos hdown, rpow_fiveThirds hdown]
  field_simp
  ring

theorem weight_pos (hdown : 0 < v.down) (hd : 0 < d) (hsf : 0 < v.sfLow d) : 0 < 5 * v.slope + 8 * v.down / d := by
  have hsfv : v.sfLow d = v.slope + v.down / d := by
    simp only [AxisView.sfLow, frictionSlope, sub_zero]
  have hratio : 0 < v.down / d := div_pos hdown hd
  rw [mul_div_assoc]
  linarith

theorem derBoundary_ne_zero (hdown : 0 < v.down) (hd : 0 < d) (hsf : 0 < v.sfLow d) (hres : res ≠ 0) :
    derBoundary realRPowerR v.slope d res v.down ≠ 0 := by
  rw [derBoundary_eq hdown hd.ne']
  have hpow : 0 < v.down ^ (2 / 3 : ℝ) := Real.rpow_pos_of_pos hdown _
  exact mul_ne_zero (neg_ne_zero.mpr (div_pos hpow three_pos).ne') (div_ne_zero (weight_pos hdown hd hsf).ne' hres)

/-- A change of the next depth always changes the flux. -/
theorem upperLow_ne_zero (hdown : 0 < v.down) (hup : 0 < v.up) (hd : 0 < v.d) (hres : res ≠ 0) :
    upperLow realRPowerR v res ≠ 0 := by
  unfold upperLow derLow
  split_ifs with hneg
  · rw [realRPowerR_of_pos hdown]
    exact div_ne_zero (neg_ne_zero.mpr (Real.rpow_pos_of_pos hdown _).ne') (mul_ne_zero hres hd.ne')
  · have hpow : 0 < v.up ^ (2 / 3 : ℝ) := Real.rpow_pos_of_pos hup _
    have hsfv : v.sf = v.slope + (v.up - v.down) / v.d := rfl
    have hratio : 0 < v.up / v.d := div_pos hup hd
    have hsum : 5 * v.sf + 3 * (v.up / v.d) ≠ 0 := by linarith [not_lt.mp hneg]
    have heq : 5 / 3 * (-v.slope + v.down / v.d) / res * v.up ^ (2 / 3 : ℝ) -
        8 / 3 * (v.up * v.up ^ (2 / 3 : ℝ)) / (res * v.d) =
          -(v.up ^ (2 / 3 : ℝ) / 3) * ((5 * v.sf + 3 * (v.up / v.d)) / res) := by
      rw [hsfv]
      field_simp
      ring
    rw [realRPowerR_of_pos hup, realRPowerR_of_pos hup, rpow_fiveThirds hup, heq]
    exact mul_ne_zero (neg_ne_zero.mpr (div_pos hpow three_pos).ne') (div_ne_zero hsum hres)

end Lower

end DiffusiveData

end ParFlow
