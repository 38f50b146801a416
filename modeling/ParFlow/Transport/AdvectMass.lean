import Mathlib.Algebra.BigOperators.Intervals
import Mathlib.Order.Interval.Finset.SuccPred
import Mathlib.Data.Int.SuccPred
import Mathlib.Tactic.LinearCombination
import ParFlow.Transport.Advect

/-! Consequences of the form of the new values: the mass in a box changes by what flows through its faces, and a flow without
sources carries affine functions of the values along. -/

namespace ParFlow.Advect

variable {K : Type} [Field K] [LinearOrder K]

/-! ## Mass -/

section Mass

variable (P : Input K) (firstord : Bool)

/-- The fluxes through the faces below a cell. -/
def Input.fluxX (i j k : ℤ) : K := P.uedge (i, j, k) * P.faceX firstord i j k

def Input.fluxY (i j k : ℤ) : K := P.vedge (i, j, k) * P.faceY firstord i j k

def Input.fluxZ (i j k : ℤ) : K := P.wedge (i, j, k) * P.faceZ firstord i j k

variable {P firstord}

theorem cell_mass (hdx : P.dx ≠ 0) (hdy : P.dy ≠ 0) (hdz : P.dz ≠ 0) {i j k : ℤ} (hphi : P.phi (i, j, k) ≠ 0) :
    P.phi (i, j, k) * (P.advected firstord i j k - P.s (i, j, k)) * (P.dx * P.dy * P.dz) =
      -P.dt * (P.dy * P.dz * (P.fluxX firstord (i + 1) j k - P.fluxX firstord i j k) +
        P.dx * P.dz * (P.fluxY firstord i (j + 1) k - P.fluxY firstord i j k) +
        P.dx * P.dy * (P.fluxZ firstord i j (k + 1) - P.fluxZ firstord i j k)) := by
  simp only [Input.advected, Input.afterLow, Input.afterY, Input.afterX, Input.fluxX, Input.fluxY, Input.fluxZ]
  field_simp
  ring

omit [LinearOrder K] in
theorem sum_Icc_telescope (f : ℤ → K) {lo hi : ℤ} (h : lo ≤ hi + 1) :
    ∑ i ∈ Finset.Icc lo hi, (f (i + 1) - f i) = f (hi + 1) - f lo := by
  obtain ⟨n, rfl⟩ : ∃ n : ℕ, hi = lo - 1 + n := ⟨(hi - (lo - 1)).toNat, by omega⟩
  clear h
  induction n with
  | zero => simp
  | succ n ih =>
    rw [Nat.cast_succ, ← add_assoc, ← Finset.insert_Icc_right_eq_Icc_add_one (by omega), Finset.sum_insert (by simp), ih]
    ring

omit [LinearOrder K] in
/-- The differences of the fluxes of a box leave those through its six sides. -/
theorem sum_box_telescope (X Y Z : ℤ → ℤ → ℤ → K) {is ie js je ks ke : ℤ} (hi : is ≤ ie + 1) (hj : js ≤ je + 1)
    (hk : ks ≤ ke + 1) :
    ∑ i ∈ Finset.Icc is ie, ∑ j ∈ Finset.Icc js je, ∑ k ∈ Finset.Icc ks ke,
        ((X (i + 1) j k - X i j k) + (Y i (j + 1) k - Y i j k) + (Z i j (k + 1) - Z i j k)) =
      ∑ j ∈ Finset.Icc js je, ∑ k ∈ Finset.Icc ks ke, (X (ie + 1) j k - X is j k) +
      ∑ i ∈ Finset.Icc is ie, ∑ k ∈ Finset.Icc ks ke, (Y i (je + 1) k - Y i js k) +
      ∑ i ∈ Finset.Icc is ie, ∑ j ∈ Finset.Icc js je, (Z i j (ke + 1) - Z i j ks) := by
  simp only [Finset.sum_add_distrib]
  congr 1
  · congr 1
    · rw [Finset.sum_comm]
      refine Finset.sum_congr rfl fun j _ => ?_
      rw [Finset.sum_comm]
      exact Finset.sum_congr rfl fun k _ => sum_Icc_telescope (fun i => X i j k) hi
    · refine Finset.sum_congr rfl fun i _ => ?_
      rw [Finset.sum_comm]
      exact Finset.sum_congr rfl fun k _ => sum_Icc_telescope (fun j => Y i j k) hj
  · exact Finset.sum_congr rfl fun i _ => Finset.sum_congr rfl fun j _ => sum_Icc_telescope (fun k => Z i j k) hk

end Mass

/-- The mass in the box changes by what `dt` lets through its six sides, for any values and slopes inside. -/
theorem advect_mass (P : Input K) (fstord : ℤ) (b : Extent) (sn : ℤ × ℤ × ℤ → K) (scr : Scratch K) (hi : b.is ≤ b.ie + 1)
    (hj : b.js ≤ b.je + 1) (hk : b.ks ≤ b.ke + 1) (hdx : P.dx ≠ 0) (hdy : P.dy ≠ 0) (hdz : P.dz ≠ 0)
    (hphi : ∀ i j k, b.is ≤ i ∧ i ≤ b.ie → b.js ≤ j ∧ j ≤ b.je → b.ks ≤ k ∧ k ≤ b.ke → P.phi (i, j, k) ≠ 0) :
    ∑ i ∈ Finset.Icc b.is b.ie, ∑ j ∈ Finset.Icc b.js b.je, ∑ k ∈ Finset.Icc b.ks b.ke,
        P.phi (i, j, k) * ((advect P fstord b sn scr).sn (i, j, k) - P.s (i, j, k)) * (P.dx * P.dy * P.dz) =
      -P.dt * (∑ j ∈ Finset.Icc b.js b.je, ∑ k ∈ Finset.Icc b.ks b.ke, P.dy * P.dz *
            (P.fluxX (decide (fstord = 1)) (b.ie + 1) j k - P.fluxX (decide (fstord = 1)) b.is j k) +
        ∑ i ∈ Finset.Icc b.is b.ie, ∑ k ∈ Finset.Icc b.ks b.ke, P.dx * P.dz *
            (P.fluxY (decide (fstord = 1)) i (b.je + 1) k - P.fluxY (decide (fstord = 1)) i b.js k) +
        ∑ i ∈ Finset.Icc b.is b.ie, ∑ j ∈ Finset.Icc b.js b.je, P.dx * P.dy *
            (P.fluxZ (decide (fstord = 1)) i j (b.ke + 1) - P.fluxZ (decide (fstord = 1)) i j b.ks)) := by
  set firstord := decide (fstord = 1)
  have hcell : ∀ i ∈ Finset.Icc b.is b.ie, ∀ j ∈ Finset.Icc b.js b.je, ∀ k ∈ Finset.Icc b.ks b.ke,
      P.phi (i, j, k) * ((advect P fstord b sn scr).sn (i, j, k) - P.s (i, j, k)) * (P.dx * P.dy * P.dz) =
        -P.dt * ((P.dy * P.dz * P.fluxX firstord (i + 1) j k - P.dy * P.dz * P.fluxX firstord i j k) +
          (P.dx * P.dz * P.fluxY firstord i (j + 1) k - P.dx * P.dz * P.fluxY firstord i j k) +
          (P.dx * P.dy * P.fluxZ firstord i j (k + 1) - P.dx * P.dy * P.fluxZ firstord i j k)) := by
    intro i hi j hj k hk
    rw [Finset.mem_Icc] at hi hj hk
    rw [advect_get P fstord sn scr hi hj hk, cell_mass hdx hdy hdz (hphi i j k hi hj hk)]
    ring
  -- what flows through a face inside of the box is in the sums of both of its cells
  calc _ = ∑ i ∈ Finset.Icc b.is b.ie, ∑ j ∈ Finset.Icc b.js b.je, ∑ k ∈ Finset.Icc b.ks b.ke, -P.dt *
        ((P.dy * P.dz * P.fluxX firstord (i + 1) j k - P.dy * P.dz * P.fluxX firstord i j k) +
          (P.dx * P.dz * P.fluxY firstord i (j + 1) k - P.dx * P.dz * P.fluxY firstord i j k) +
          (P.dx * P.dy * P.fluxZ firstord i j (k + 1) - P.dx * P.dy * P.fluxZ firstord i j k)) :=
        Finset.sum_congr rfl fun i hi => Finset.sum_congr rfl fun j hj => Finset.sum_congr rfl (hcell i hi j hj)
    _ = _ := by
      simp only [← Finset.mul_sum]
      rw [sum_box_telescope (fun i j k => P.dy * P.dz * P.fluxX firstord i j k)
        (fun i j k => P.dx * P.dz * P.fluxY firstord i j k) (fun i j k => P.dx * P.dy * P.fluxZ firstord i j k) hi hj hk]
      simp only [← mul_sub, ← Finset.mul_sum]

theorem shear_advect_mass : ∑ i ∈ Finset.Icc 0 2, ∑ j ∈ Finset.Icc 0 2, ∑ k ∈ Finset.Icc 0 1,
    shear.phi (i, j, k) * ((advect shear 0 shearBox (fun _ => 0) zeroScratch).sn (i, j, k) - shear.s (i, j, k)) *
        (1 * 1 * 1) =
      -(1 / 10) * (∑ j ∈ Finset.Icc 0 2, ∑ k ∈ Finset.Icc 0 1,
            1 * 1 * (shear.fluxX false (2 + 1) j k - shear.fluxX false 0 j k) +
        ∑ i ∈ Finset.Icc 0 2, ∑ k ∈ Finset.Icc 0 1, 1 * 1 * (shear.fluxY false i (2 + 1) k - shear.fluxY false i 0 k) +
        ∑ i ∈ Finset.Icc 0 2, ∑ j ∈ Finset.Icc 0 2, 1 * 1 * (shear.fluxZ false i j (1 + 1) - shear.fluxZ false i j 0)) :=
  advect_mass shear 0 shearBox (fun _ => 0) zeroScratch (by decide) (by decide) (by decide) one_ne_zero
    one_ne_zero one_ne_zero fun _ _ _ _ _ _ => by simp [shear]

/-! ## Affine functions of the values -/

section Affine

variable [IsStrictOrderedRing K]

def Input.affine (P : Input K) (a v : K) : Input K := { P with s := fun c => a * P.s c + v }

omit [IsStrictOrderedRing K] in
theorem upwind_affine (u a v lo hi : K) : upwind u (a * lo + v) (a * hi + v) = a * upwind u lo hi + v := by
  unfold upwind
  split_ifs <;> rfl

theorem dsign_mul {a c x : K} (h : c = 0 → x = 0) : dsign 1 (a * c) * (|a| * x) = a * (dsign 1 c * x) := by
  rcases eq_or_ne c 0 with rfl | hc
  · rw [h rfl]
    ring
  have hcase : dsign 1 (a * c) * |a| = a * dsign 1 c := by
    unfold dsign
    rcases lt_trichotomy a 0 with ha | rfl | ha
    · rw [abs_of_neg ha]
      rcases lt_or_gt_of_ne hc with hc | hc
      · rw [if_pos (mul_pos_of_neg_of_neg ha hc).le, if_neg (not_le.mpr hc), abs_one]
        ring
      · rw [if_neg (not_le.mpr (mul_neg_of_neg_of_pos ha hc)), if_pos hc.le, abs_one]
        ring
    · simp
    · rw [abs_of_pos ha]
      rcases lt_or_gt_of_ne hc with hc | hc
      · rw [if_neg (not_le.mpr (mul_neg_of_pos_of_neg ha hc)), if_neg (not_le.mpr hc)]
        ring
      · rw [if_pos (mul_pos ha hc).le, if_pos hc.le]
        ring
  rw [← mul_assoc, hcase, mul_assoc]

/-- The columns for the affine function. -/
theorem centred_affine (a v lo mid hi : K) :
    (centred (a * lo + v) (a * mid + v) (a * hi + v)).cen = a * (centred lo mid hi).cen ∧
      (centred (a * lo + v) (a * mid + v) (a * hi + v)).lim = |a| * (centred lo mid hi).lim := by
  have hpls : 2 * ((a * hi + v) - (a * mid + v)) = a * (2 * (hi - mid)) := by ring
  have hmin : 2 * ((a * mid + v) - (a * lo + v)) = a * (2 * (mid - lo)) := by ring
  constructor
  · simp only [centred]
    ring
  · simp only [centred]
    rw [hpls, hmin, abs_mul a, abs_mul a, ← mul_min_of_nonneg _ _ (abs_nonneg a)]
    rcases eq_or_ne a 0 with rfl | ha
    · simp
    -- the limiter is zero at the same extrema
    have hsign : a * (2 * (hi - mid)) * (a * (2 * (mid - lo))) < 0 ↔ 2 * (hi - mid) * (2 * (mid - lo)) < 0 := by
      have hpos := mul_self_pos.mpr ha
      rw [show a * (2 * (hi - mid)) * (a * (2 * (mid - lo))) = a * a * (2 * (hi - mid) * (2 * (mid - lo))) by ring]
      exact ⟨fun h => not_le.mp fun h' => (mul_nonneg hpos.le h').not_gt h, mul_neg_of_pos_of_neg hpos⟩
    simp only [hsign, mul_ite, mul_zero]

omit [IsStrictOrderedRing K] in
theorem centred_flag (lo mid hi : K) : (centred lo mid hi).flag = dsign 1 (centred lo mid hi).cen := rfl

theorem centred_lim_nonneg (lo mid hi : K) : 0 ≤ (centred lo mid hi).lim := by
  simp only [centred]
  split_ifs
  · exact le_rfl
  · exact le_min (abs_nonneg _) (abs_nonneg _)

/-- Where the two one-sided differences cancel there is an extremum. -/
theorem centred_lim (lo mid hi : K) (h : (centred lo mid hi).cen = 0) : (centred lo mid hi).lim = 0 := by
  have hd : hi = lo := by
    have h : (1 / 2 : K) * (hi - lo) = 0 := h
    linarith
  subst hd
  simp only [centred]
  rcases eq_or_ne hi mid with rfl | hne
  · simp
  · rw [if_pos]
    have := mul_self_pos.mpr (sub_ne_zero.mpr hne)
    nlinarith

theorem fromm_affine (a v lo mid hi : K) :
    fromm (centred (a * lo + v) (a * mid + v) (a * hi + v)) = a * fromm (centred lo mid hi) := by
  obtain ⟨hcen, hlim⟩ := centred_affine a v lo mid hi
  unfold fromm
  rw [centred_flag, centred_flag, hcen, hlim, abs_mul, ← mul_min_of_nonneg _ _ (abs_nonneg a)]
  refine dsign_mul fun h => ?_
  rw [h, abs_zero, min_eq_right (centred_lim_nonneg lo mid hi)]

theorem slopeAt_affine (a v : K) (f : ℤ → K) (i : ℤ) : slopeAt (fun i => a * f i + v) i = a * slopeAt f i := by
  obtain ⟨hcen, hlim⟩ := centred_affine a v (f (i - 1)) (f i) (f (i + 1))
  unfold slopeAt limited
  rw [fromm_affine, fromm_affine, centred_flag, centred_flag, hcen, hlim]
  simp only
  rw [← dsign_mul fun h => ?_]
  · rw [mul_min_of_nonneg _ _ (abs_nonneg a), ← abs_mul]
    ring_nf
  · rw [centred_lim _ _ _ h, min_eq_right (abs_nonneg _)]

/-! The traces and the faces -/

omit [IsStrictOrderedRing K] [LinearOrder K] in
theorem edge_add (firstord : Bool) (a v s c sl : K) :
    (if firstord then a * s + v else a * s + v + c * (a * sl)) = a * (if firstord then s else s + c * sl) + v := by
  split_ifs
  · rfl
  · ring

omit [IsStrictOrderedRing K] [LinearOrder K] in
theorem edge_sub (firstord : Bool) (a v s c sl : K) :
    (if firstord then a * s + v else a * s + v - c * (a * sl)) = a * (if firstord then s else s - c * sl) + v := by
  split_ifs
  · rfl
  · ring

/-- No water is gained or lost in a cell. -/
def Input.DivFree (P : Input K) (i j k : ℤ) : Prop :=
  (P.uedge (i + 1, j, k) - P.uedge (i, j, k)) * (1 / P.dx) + (P.vedge (i, j + 1, k) - P.vedge (i, j, k)) * (1 / P.dy) +
    (P.wedge (i, j, k + 1) - P.wedge (i, j, k)) * (1 / P.dz) = 0

def Traces.affine (t : Traces K) (a v : K) : Traces K :=
  ⟨a * t.left + v, a * t.right + v, a * t.bck + v, a * t.frt + v, a * t.bot + v, a * t.top + v⟩

variable {P : Input K} {firstord : Bool} {i j k : ℤ}

omit [IsStrictOrderedRing K] in
theorem cellTraces_affine (a v : K) (slx sly zm zc zp : ℤ × ℤ → K) (hdiv : P.DivFree i j k) :
    cellTraces (P.affine a v) firstord (fun c => a * slx c) (fun c => a * sly c) (fun c => a * zm c) (fun c => a * zc c)
        (fun c => a * zp c) i j k = (cellTraces P firstord slx sly zm zc zp i j k).affine a v := by
  unfold Input.DivFree at hdiv
  simp only [cellTraces, Input.affine, Traces.affine, edge_add, edge_sub, upwind_affine, Traces.mk.injEq]
  refine ⟨?_, ?_, ?_, ?_, ?_, ?_⟩ <;>
    linear_combination (-(half * P.dt * (1 / P.phi (i, j, k)) * v)) * hdiv

theorem traces_affine (a v : K) (hdiv : P.DivFree i j k) :
    (P.affine a v).traces firstord i j k = (P.traces firstord i j k).affine a v := by
  have hx : ∀ k, (P.affine a v).slopeX k = fun c => a * P.slopeX k c := fun k => funext fun c => slopeAt_affine a v _ _
  have hy : ∀ k, (P.affine a v).slopeY k = fun c => a * P.slopeY k c := fun k => funext fun c => slopeAt_affine a v _ _
  have hz : ∀ k, (P.affine a v).slopeZ k = fun c => a * P.slopeZ k c := fun k => funext fun c => slopeAt_affine a v _ _
  unfold Input.traces
  rw [hx, hy, hz, hz, hz]
  exact cellTraces_affine a v _ _ _ _ _ hdiv

theorem faceX_affine (a v : K) (hlo : P.DivFree (i - 1) j k) (hhi : P.DivFree i j k) :
    (P.affine a v).faceX firstord i j k = a * P.faceX firstord i j k + v := by
  unfold Input.faceX
  rw [traces_affine a v hlo, traces_affine a v hhi]
  exact upwind_affine _ a v _ _

theorem faceY_affine (a v : K) (hlo : P.DivFree i (j - 1) k) (hhi : P.DivFree i j k) :
    (P.affine a v).faceY firstord i j k = a * P.faceY firstord i j k + v := by
  unfold Input.faceY
  rw [traces_affine a v hlo, traces_affine a v hhi]
  exact upwind_affine _ a v _ _

theorem faceZ_affine (a v : K) (hlo : P.DivFree i j (k - 1)) (hhi : P.DivFree i j k) :
    (P.affine a v).faceZ firstord i j k = a * P.faceZ firstord i j k + v := by
  unfold Input.faceZ
  rw [traces_affine a v hlo, traces_affine a v hhi]
  exact upwind_affine _ a v _ _

/-- The new value of a cell where neither it nor a neighbour at a face gains water. -/
theorem advected_affine (a v : K) (hdiv : ∀ i' j' k', |i' - i| ≤ 1 → |j' - j| ≤ 1 → |k' - k| ≤ 1 → P.DivFree i' j' k') :
    (P.affine a v).advected firstord i j k = a * P.advected firstord i j k + v := by
  have hself : P.DivFree i j k := hdiv i j k (by simp) (by simp) (by simp)
  have hx : P.DivFree (i - 1) j k ∧ P.DivFree (i + 1) j k :=
    ⟨hdiv _ _ _ (by simp) (by simp) (by simp), hdiv _ _ _ (by simp) (by simp) (by simp)⟩
  have hy : P.DivFree i (j - 1) k ∧ P.DivFree i (j + 1) k :=
    ⟨hdiv _ _ _ (by simp) (by simp) (by simp), hdiv _ _ _ (by simp) (by simp) (by simp)⟩
  have hz : P.DivFree i j (k - 1) ∧ P.DivFree i j (k + 1) :=
    ⟨hdiv _ _ _ (by simp) (by simp) (by simp), hdiv _ _ _ (by simp) (by simp) (by simp)⟩
  unfold Input.advected Input.afterLow Input.afterY Input.afterX
  rw [faceX_affine a v hx.1 hself, faceX_affine a v (by rwa [add_sub_cancel_right]) hx.2, faceY_affine a v hy.1 hself,
    faceY_affine a v (by rwa [add_sub_cancel_right]) hy.2, faceZ_affine a v hz.1 hself,
    faceZ_affine a v (by rwa [add_sub_cancel_right]) hz.2]
  unfold Input.DivFree at hself
  simp only [Input.affine]
  linear_combination (-(P.dt * v / P.phi (i, j, k))) * hself

end Affine

/-- Where the flow has no sources in the box and the cells next to it, an affine change of the values is carried along, so
that constant values stay as they are. -/
theorem advect_affine [IsStrictOrderedRing K] (P : Input K) (fstord : ℤ) (b : Extent) (sn sn' : ℤ × ℤ × ℤ → K)
    (scr scr' : Scratch K) (a v : K) (hdiv : ∀ i j k, b.is - 1 ≤ i ∧ i ≤ b.ie + 1 → b.js - 1 ≤ j ∧ j ≤ b.je + 1 →
      b.ks - 1 ≤ k ∧ k ≤ b.ke + 1 → P.DivFree i j k) {i j k : ℤ} (hi : b.is ≤ i ∧ i ≤ b.ie) (hj : b.js ≤ j ∧ j ≤ b.je)
    (hk : b.ks ≤ k ∧ k ≤ b.ke) : (advect (P.affine a v) fstord b sn scr).sn (i, j, k) =
      a * (advect P fstord b sn' scr').sn (i, j, k) + v := by
  rw [advect_get _ fstord sn scr hi hj hk, advect_get P fstord sn' scr' hi hj hk]
  refine advected_affine a v fun i' j' k' hi' hj' hk' => ?_
  rw [abs_le] at hi' hj' hk'
  exact hdiv i' j' k' (by omega) (by omega) (by omega)

theorem shear_divFree (i j k : ℤ) : shear.DivFree i j k := by
  simp [Input.DivFree, shear]

theorem shear_advect_affine : (advect (shear.affine 3 7) 0 shearBox (fun _ => 0) zeroScratch).sn (1, 1, 0) =
    3 * (advect shear 0 shearBox (fun _ => 0) zeroScratch).sn (1, 1, 0) + 7 :=
  advect_affine shear 0 shearBox _ _ _ _ 3 7 (fun i j k _ _ _ => shear_divFree i j k) (by decide) (by decide) (by decide)

end ParFlow.Advect
