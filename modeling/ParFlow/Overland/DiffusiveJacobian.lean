import ParFlow.Overland.DiffusiveColumns
import ParFlow.Overland.DiffusiveDerivative

/-! The derivatives that `OverlandFlowEvalDiff` returns with `CALCDER` against the derivatives of the values that it
returns with `CALCFCN`, on a process with one subgrid. -/

set_option linter.unusedSectionVars false

namespace ParFlow

namespace DiffusiveData

open LinearPower
open scoped Numerals

/-- The data with another pressure in the top cell of a column. -/
noncomputable def withPressure (P : DiffusiveData ℝ) (c : ℤ × ℤ) (t : ℝ) : DiffusiveData ℝ :=
  { P with pressure := { P.pressure with data := Function.update P.pressure.data (P.ip c) t } }

def AllZero (s : DiffusiveState ℝ) : Prop :=
  ∀ ax : PlaneAxis, s.axis ax = ⟨fun _ => 0, fun _ => 0, fun _ => 0, fun _ => 0, fun _ => 0⟩

/-- The results at a column are differentiated by the pressure of its own top cell. -/
def JacobianAt (P : DiffusiveData ℝ) (ghostColumns columns : List (ℤ × ℤ)) (s : DiffusiveState ℝ) (c : ℤ × ℤ)
    (ax : PlaneAxis) : Prop :=
  let value := fun t => ((P.withPressure c t).overlandFlowEvalDiff realRPowerR .calcFcn ghostColumns columns s).axis ax
  let der := (P.overlandFlowEvalDiff realRPowerR .calcDer ghostColumns columns s).axis ax
  let p := P.pressure.data (P.ip c)
  HasDerivAt (fun t => (value t).high (P.io c)) (der.high (P.io c)) p ∧
    HasDerivAt (fun t => (value t).low (P.io c)) (der.low (P.io c)) p

/-- Water on all top cells, and friction slopes other than zero at the faces of the columns of the subgrid. -/
structure WetSurface (P : DiffusiveData ℝ) (ghostColumns columns : List (ℤ × ℤ)) : Prop
    extends P.TopPatch ghostColumns columns where
  pressureSpace : (P.pressure.dataSpace.ix = P.top.dataSpace.ix ∧ P.pressure.dataSpace.nx = P.top.dataSpace.nx) ∧
    P.pressure.dataSpace.iy = P.top.dataSpace.iy ∧ P.pressure.dataSpace.ny = P.top.dataSpace.ny
  extents : 0 < P.dx ∧ 0 < P.dy
  epsilon : 0 < P.ovEpsilon
  mann_ne : ∀ c ∈ ghostColumns, P.mann c ≠ 0
  wet : ∀ c ∈ ghostColumns, 0 < P.pressure.data (P.ip c)
  sf_ne : ∀ c ∈ columns, ∀ ax, (P.view ax c).sf ≠ 0 ∧ (c - ax.unit ∈ ghostColumns → (P.view ax (c - ax.unit)).sf ≠ 0)
  sfLow_ne : ∀ c ∈ columns, ∀ ax, P.k0 ax c < 0 →
    (P.view ax c).sfLow P.dx ≠ 0 ∧ (P.view ax c).sfLow (P.view ax c).d ≠ 0

variable {P : DiffusiveData ℝ} {ghostColumns columns : List (ℤ × ℤ)} {c : ℤ × ℤ}

/-- The resistance on a lower boundary, with `dx` for all extents. -/
noncomputable def valueRes (P : DiffusiveData ℝ) (ax : PlaneAxis) (c : ℤ × ℤ) : ℝ :=
  P.boundaryRes realRPowerR (P.view ax c) (P.view ax.other c) P.dx P.dx (P.k0 ax.other c < 0) (P.mann c)

noncomputable def derRes (P : DiffusiveData ℝ) (ax : PlaneAxis) (c : ℤ × ℤ) : ℝ :=
  P.lowerRes realRPowerR (P.view ax c) (P.view ax.other c) (P.k0 ax.other c < 0) (P.mann c)

/-- `Sf_mag` with real numbers. -/
noncomputable def slopeMagnitude (P : DiffusiveData ℝ) (a b : ℝ) : ℝ := max P.ovEpsilon √(a * a + b * b)

theorem sfMag_realRPowerR (P : DiffusiveData ℝ) (a b : ℝ) : P.sfMag realRPowerR a b = P.slopeMagnitude a b := by
  have hroot : realRPowerR (a * a + b * b) (1 / 2) = √(a * a + b * b) := by
    unfold realRPowerR rPowerR
    split_ifs with h
    · rw [Real.sqrt_eq_zero_of_nonpos h]
    · rw [Real.sqrt_eq_rpow]
  unfold sfMag slopeMagnitude
  rw [hroot]
  dsimp only
  split_ifs with h
  · exact (max_eq_left h.le).symm
  · exact (max_eq_right (not_lt.mp h)).symm

/-! ## Where the derivatives are right -/

/-- In a corner with flow over the lower x boundary, dividing by `dx` or by `dy` gives one magnitude of the old slope. -/
def LowerXAgrees (P : DiffusiveData ℝ) (c : ℤ × ℤ) : Prop :=
  let v := P.view .x c
  let w := P.view .y c
  P.k0x c < 0 → P.k0y c < 0 → 0 < v.sfLow P.dx →
    P.slopeMagnitude (v.sfoLow P.dx) (w.sfoLow P.dx) = P.slopeMagnitude (v.sfoLow P.dx) (w.sfoLow P.dy)

/-- Water flows over a lower y boundary with `dx` in the place of `dy` exactly when it does with `dy` and the
column is not a corner without flow in x, and then both give one derivative. -/
def LowerYAgrees (P : DiffusiveData ℝ) (c : ℤ × ℤ) : Prop :=
  let v := P.view .y c
  let w := P.view .x c
  let wo := if P.k0x c < 0 then w.sfoLow P.dx else w.sfo
  P.k0y c < 0 → (0 < v.sfLow P.dx ↔ 0 < v.sfLow P.dy ∧ ¬ (P.k0x c < 0 ∧ w.sfLow P.dx < 0)) ∧
    (0 < v.sfLow P.dx → (5 * v.slope + 8 * v.down / P.dx) ^ 2 * P.slopeMagnitude (v.sfoLow P.dy) wo =
      (5 * v.slope + 8 * v.down / P.dy) ^ 2 * P.slopeMagnitude (v.sfoLow P.dx) wo)

/-- The columns before this one are of the same subgrid, and the derivatives on its lower boundaries are right. -/
structure DerivativesAgree (P : DiffusiveData ℝ) (ghostColumns columns : List (ℤ × ℤ)) (c : ℤ × ℤ) : Prop where
  prev : ∀ ax : PlaneAxis, c - ax.unit ∈ ghostColumns → c - ax.unit ∈ columns
  lowerX : LowerXAgrees P c
  lowerY : LowerYAgrees P c

/-! ## Another pressure -/

theorem depth_withPressure_self (P : DiffusiveData ℝ) (c : ℤ × ℤ) (t : ℝ) : (P.withPressure c t).depth (P.ip c) = pfmax t 0 :=
  congrArg (pfmax · 0) (Function.update_self ..)

theorem depth_withPressure_of_ne {n : ℤ} (h : n ≠ P.ip c) (t : ℝ) : (P.withPressure c t).depth n = P.depth n :=
  congrArg (pfmax · 0) (Function.update_of_ne h ..)

namespace WetSurface

variable (hp : P.WetSurface ghostColumns columns) (hc : c ∈ columns) (ax : PlaneAxis)

include hp

theorem topPatch_withPressure (c : ℤ × ℤ) (t : ℝ) : (P.withPressure c t).TopPatch ghostColumns columns :=
  ⟨hp.space, hp.inSpace, hp.sub, hp.inner, hp.top⟩

theorem ip_ne {c c' : ℤ × ℤ} (hc : P.InSpace c) (hc' : P.InSpace c') (h : c ≠ c') : P.ip c ≠ P.ip c' := by
  intro hip
  obtain ⟨⟨hix, hnx⟩, hiy, hny⟩ := hp.pressureSpace
  unfold InSpace at hc hc'
  rw [← hix, ← hnx, ← hiy, ← hny] at hc hc'
  exact h (subvectorEltIndex_inj hc hc' hip).1

theorem slopeMagnitude_pos (a b : ℝ) : 0 < P.slopeMagnitude a b := hp.epsilon.trans_le (le_max_left _ _)

theorem resistance_eq (a b mann : ℝ) :
    resistance realRPowerR (P.sfMag realRPowerR a b) mann = √(P.slopeMagnitude a b) * mann := by
  have hpos := hp.slopeMagnitude_pos a b
  unfold resistance
  rw [sfMag_realRPowerR, abs_of_pos hpos, realRPowerR_of_pos hpos, Real.sqrt_eq_rpow]

theorem resistance_ne_zero (a b : ℝ) {mann : ℝ} (hmann : mann ≠ 0) :
    resistance realRPowerR (P.sfMag realRPowerR a b) mann ≠ 0 := by
  rw [hp.resistance_eq]
  exact mul_ne_zero (Real.sqrt_pos.mpr (hp.slopeMagnitude_pos a b)).ne' hmann

theorem unit_ne : c + ax.unit ≠ c := by
  intro h
  have h0 : ax.unit = 0 := add_eq_left.mp h
  cases ax <;> simp [PlaneAxis.unit] at h0

theorem view_own (t : ℝ) (hc : P.InSpace c) (hnext : ∀ ax : PlaneAxis, P.InSpace (c + ax.unit)) :
    (P.withPressure c t).view ax c = (P.view ax c).withDown (pfmax t 0) := by
  have hne := fun ax : PlaneAxis => hp.ip_ne (hnext ax) hc (hp.unit_ne ax)
  cases ax with
  | x =>
    have hup := depth_withPressure_of_ne (hne .x) t
    rw [← ipp1_eq] at hup
    exact congrArg₂ (fun down up => AxisView.mk _ _ down up _ _) (depth_withPressure_self P c t) hup
  | y =>
    have hup := depth_withPressure_of_ne (hne .y) t
    rw [← ippsy_eq] at hup
    exact congrArg₂ (fun down up => AxisView.mk _ _ down up _ _) (depth_withPressure_self P c t) hup

theorem view_prev (t : ℝ) (hc : P.InSpace c) (hprev : P.InSpace (c - ax.unit)) :
    (P.withPressure c t).view ax (c - ax.unit) = (P.view ax (c - ax.unit)).withUp (pfmax t 0) := by
  have hnext : c - ax.unit + ax.unit = c := sub_add_cancel c ax.unit
  have hne : P.ip (c - ax.unit) ≠ P.ip c := by
    refine hp.ip_ne hprev hc fun h => hp.unit_ne ax (c := c - ax.unit) ?_
    rw [hnext, h]
  have hdown := depth_withPressure_of_ne hne t
  cases ax with
  | x =>
    have hup := depth_withPressure_self P c t
    rw [← hnext, ← ipp1_eq, hnext] at hup
    exact congrArg₂ (fun down up => AxisView.mk _ _ down up _ _) hdown hup
  | y =>
    have hup := depth_withPressure_self P c t
    rw [← hnext, ← ippsy_eq, hnext] at hup
    exact congrArg₂ (fun down up => AxisView.mk _ _ down up _ _) hdown hup

theorem columnRes_withPressure (c' : ℤ × ℤ) (t : ℝ) :
    (P.withPressure c t).columnRes realRPowerR ax c' = P.columnRes realRPowerR ax c' := by
  cases ax <;> rfl

theorem lowerFlux_withPressure (t : ℝ) (hc : P.InSpace c) (hnext : ∀ ax : PlaneAxis, P.InSpace (c + ax.unit))
    (hk : P.k0 ax c < 0) :
    ((P.withPressure c t).lowerFlux realRPowerR ax c).getD 0 =
      let u := (P.view ax c).withDown (pfmax t 0)
      if 0 < u.sfLow P.dx then diffusiveFlux realRPowerR (u.sfLow P.dx) (P.valueRes ax c) u.down else 0 := by
  have hk' : (P.withPressure c t).k0 ax c < 0 := by cases ax <;> exact hk
  unfold lowerFlux boundaryFlux
  rw [if_pos hk', hp.view_own ax t hc hnext, hp.view_own ax.other t hc hnext]
  have hdx : (P.withPressure c t).dx = P.dx := rfl
  by_cases hsf : 0 < ((P.view ax c).withDown (pfmax t 0)).sfLow P.dx
  · simp only [hdx, if_pos hsf, Option.getD_some]
    cases ax <;> rfl
  · simp only [hdx, if_neg hsf, Option.getD_none]

/-! ## The Jacobian -/

variable {s : DiffusiveState ℝ}

theorem down_eq (hc : c ∈ ghostColumns) : (P.view ax c).down = P.pressure.data (P.ip c) ∧ 0 < (P.view ax c).down := by
  have hwet := hp.wet c hc
  have hdown : (P.view ax c).down = P.depth (P.ip c) := by cases ax <;> rfl
  have hdepth : P.depth (P.ip c) = P.pressure.data (P.ip c) := pfmax_of_pos hwet
  rw [hdown, hdepth]
  exact ⟨rfl, hwet⟩

theorem d_pos (c : ℤ × ℤ) : 0 < (P.view ax c).d := by
  cases ax with
  | x => exact hp.extents.1
  | y => exact hp.extents.2

include hc

theorem up_prev : (P.view ax (c - ax.unit)).up = P.pressure.data (P.ip c) := by
  have hwet := hp.wet c (hp.sub c hc)
  have hnext : c - ax.unit + ax.unit = c := sub_add_cancel c ax.unit
  have hdepth : P.depth (P.ip c) = P.pressure.data (P.ip c) := pfmax_of_pos hwet
  rw [← hdepth]
  cases ax with
  | x =>
    show P.depth (P.ipp1 _) = _
    rw [ipp1_eq, hnext]
  | y =>
    show P.depth (P.ippsy _) = _
    rw [ippsy_eq, hnext]

theorem hasDerivAt_high (s : DiffusiveState ℝ) :
    HasDerivAt (fun t => (((P.withPressure c t).overlandFlowEvalDiff realRPowerR .calcFcn ghostColumns columns s).axis ax).high
      (P.io c)) (((P.overlandFlowEvalDiff realRPowerR .calcDer ghostColumns columns s).axis ax).high (P.io c))
      (P.pressure.data (P.ip c)) := by
  obtain ⟨hdown, hpos⟩ := hp.down_eq ax (hp.sub c hc)
  have hspace := hp.inSpace c (hp.sub c hc)
  have hnext := fun ax => (hp.inner c hc ax).2
  rw [hp.der_high realRPowerR ax s hc, ← hdown]
  refine (hasDerivAt_upperFlux_down hpos (hp.d_pos ax c).ne' (hp.sf_ne c hc ax).1).congr_of_eventuallyEq ?_
  refine Filter.Eventually.of_forall fun t => ?_
  refine ((hp.topPatch_withPressure c t).fcn_high realRPowerR ax s hc).trans ?_
  unfold columnFlux
  rw [hp.view_own ax t hspace hnext, hp.columnRes_withPressure]

/-- The derivative of the flux through the lower side of a column. -/
noncomputable def lowDerivative (P : DiffusiveData ℝ) (ghostColumns : List (ℤ × ℤ)) (ax : PlaneAxis) (c : ℤ × ℤ) : ℝ :=
  let v := P.view ax c
  if c - ax.unit ∈ ghostColumns then
    upperLow realRPowerR (P.view ax (c - ax.unit)) (P.columnRes realRPowerR ax (c - ax.unit))
  else if P.k0 ax c < 0 then
    if v.sfLow P.dx < 0 then 0 else derBoundary realRPowerR v.slope P.dx (P.valueRes ax c) v.down
  else 0

theorem hasDerivAt_low (hzero : AllZero s) :
    HasDerivAt (fun t => (((P.withPressure c t).overlandFlowEvalDiff realRPowerR .calcFcn ghostColumns columns s).axis ax).low
      (P.io c)) (lowDerivative P ghostColumns ax c) (P.pressure.data (P.ip c)) := by
  obtain ⟨hdown, hpos⟩ := hp.down_eq ax (hp.sub c hc)
  have hspace := hp.inSpace c (hp.sub c hc)
  have hnext := fun ax => (hp.inner c hc ax).2
  have hflux : ∀ n, (s.axis ax).flux n = 0 := fun n => by rw [hzero ax]
  unfold lowDerivative
  by_cases hprev : c - ax.unit ∈ ghostColumns
  · rw [if_pos hprev]
    have hup := hp.up_prev hc ax
    have h : HasDerivAt (fun t => upperFlux realRPowerR ((P.view ax (c - ax.unit)).withUp (pfmax t 0))
        (P.columnRes realRPowerR ax (c - ax.unit))) _ (P.view ax (c - ax.unit)).up :=
      hasDerivAt_upperFlux_up (hup ▸ hp.wet c (hp.sub c hc)) (hp.d_pos ax (c - ax.unit)).ne' ((hp.sf_ne c hc ax).2 hprev)
    rw [hup] at h
    refine h.congr_of_eventuallyEq (Filter.Eventually.of_forall fun t => ?_)
    refine ((hp.topPatch_withPressure c t).fcn_low_prev realRPowerR ax s hc hprev).trans ?_
    unfold columnFlux
    rw [hp.view_prev ax t hspace (hp.inner c hc ax).1, hp.columnRes_withPressure]
  rw [if_neg hprev]
  by_cases hk : P.k0 ax c < 0
  · rw [if_pos hk, ← hdown]
    refine (hasDerivAt_lowerFlux hpos hp.extents.1.ne' (hp.sfLow_ne c hc ax hk).1).congr_of_eventuallyEq
      (Filter.Eventually.of_forall fun t => ?_)
    refine ((hp.topPatch_withPressure c t).fcn_low_first realRPowerR ax s hc hprev).trans ?_
    rw [hflux, hp.lowerFlux_withPressure ax t hspace hnext hk]
  · rw [if_neg hk]
    refine (hasDerivAt_const _ (0 : ℝ)).congr_of_eventuallyEq (Filter.Eventually.of_forall fun t => ?_)
    refine ((hp.topPatch_withPressure c t).fcn_low_first realRPowerR ax s hc hprev).trans ?_
    have hnone : (P.withPressure c t).lowerFlux realRPowerR ax c = none := by
      refine if_neg ?_
      cases ax <;> exact hk
    rw [hnone, hflux, Option.getD_none]

theorem der_low_eq (hzero : AllZero s) :
    ((P.overlandFlowEvalDiff realRPowerR .calcDer ghostColumns columns s).axis ax).low (P.io c) =
      if c - ax.unit ∈ columns then
        upperLow realRPowerR (P.view ax (c - ax.unit)) (P.columnRes realRPowerR ax (c - ax.unit))
      else if P.k0 ax c < 0 then
        if P.NoFlow ax c then 0
        else derBoundary realRPowerR (P.view ax c).slope (P.view ax c).d (P.derRes ax c) (P.view ax c).down
      else 0 := by
  by_cases hprev : c - ax.unit ∈ columns
  · rw [if_pos hprev]
    exact (hp.der_prev realRPowerR ax s hprev).1
  rw [if_neg hprev]
  by_cases hk : P.k0 ax c < 0
  · rw [if_pos hk, (hp.der_bound realRPowerR ax s hc hk).1]
    split_ifs <;> rfl
  · rw [if_neg hk, (hp.der_free realRPowerR ax s hc hk hprev).1, hzero ax]

/-- The derivative on a lower boundary is the one of the flux over it. -/
def BoundaryAgrees (P : DiffusiveData ℝ) (ax : PlaneAxis) (c : ℤ × ℤ) : Prop :=
  let v := P.view ax c
  (if v.sfLow P.dx < 0 then 0 else derBoundary realRPowerR v.slope P.dx (P.valueRes ax c) v.down) =
    if P.NoFlow ax c then 0 else derBoundary realRPowerR v.slope v.d (P.derRes ax c) v.down

theorem jacobianAt_iff (hzero : AllZero s) : JacobianAt P ghostColumns columns s c ax ↔
    (c - ax.unit ∈ ghostColumns → c - ax.unit ∈ columns) ∧ (P.k0 ax c < 0 → BoundaryAgrees P ax c) := by
  have hlow := hp.hasDerivAt_low hc ax hzero
  have hiff : JacobianAt P ghostColumns columns s c ax ↔ lowDerivative P ghostColumns ax c =
      ((P.overlandFlowEvalDiff realRPowerR .calcDer ghostColumns columns s).axis ax).low (P.io c) := by
    constructor
    · intro h
      exact hlow.unique h.2
    · intro h
      exact ⟨hp.hasDerivAt_high hc ax s, h ▸ hlow⟩
  rw [hiff, hp.der_low_eq hc ax hzero]
  unfold lowDerivative
  by_cases hghost : c - ax.unit ∈ ghostColumns
  · have hk : ¬ P.k0 ax c < 0 := by
      rw [k0_eq]
      exact not_lt.mpr (hp.top _ hghost)
    rw [if_pos hghost, if_neg hk]
    by_cases hprev : c - ax.unit ∈ columns
    · rw [if_pos hprev]
      exact ⟨fun _ => ⟨fun _ => hprev, fun h => absurd h hk⟩, fun _ => rfl⟩
    · rw [if_neg hprev]
      have hne : upperLow realRPowerR (P.view ax (c - ax.unit)) (P.columnRes realRPowerR ax (c - ax.unit)) ≠ 0 :=
        upperLow_ne_zero (hp.down_eq ax hghost).2 (hp.up_prev hc ax ▸ hp.wet c (hp.sub c hc)) (hp.d_pos ax _)
          (hp.resistance_ne_zero _ _ (hp.mann_ne _ hghost))
      exact ⟨fun h => absurd h hne, fun h => absurd (h.1 hghost) hprev⟩
  · have hprev : c - ax.unit ∉ columns := fun h => hghost (hp.sub _ h)
    rw [if_neg hghost, if_neg hprev]
    by_cases hk : P.k0 ax c < 0
    · rw [if_pos hk, if_pos hk]
      exact ⟨fun h => ⟨fun h' => absurd h' hghost, fun _ => h⟩, fun h => h.2 hk⟩
    · rw [if_neg hk, if_neg hk]
      exact ⟨fun _ => ⟨fun h' => absurd h' hghost, fun h' => absurd h' hk⟩, fun _ => rfl⟩

theorem derBoundary_eq_iff {m n d d' : ℝ} (hd : 0 < d) (hd' : 0 < d')
    (hsf : 0 < (P.view ax c).sfLow d) (hsf' : 0 < (P.view ax c).sfLow d') (hm : 0 < m) (hn : 0 < n) :
    derBoundary realRPowerR (P.view ax c).slope d (√m * P.mann c) (P.view ax c).down =
        derBoundary realRPowerR (P.view ax c).slope d' (√n * P.mann c) (P.view ax c).down ↔
      (5 * (P.view ax c).slope + 8 * (P.view ax c).down / d) ^ 2 * n =
        (5 * (P.view ax c).slope + 8 * (P.view ax c).down / d') ^ 2 * m := by
  have hdown := (hp.down_eq ax (hp.sub c hc)).2
  have hpow : -((P.view ax c).down ^ (2 / 3 : ℝ) / 3) ≠ 0 :=
    neg_ne_zero.mpr (div_pos (Real.rpow_pos_of_pos hdown _) three_pos).ne'
  rw [derBoundary_eq hdown hd.ne', derBoundary_eq hdown hd'.ne', mul_right_inj' hpow, ← div_div, ← div_div,
    div_left_inj' (hp.mann_ne c (hp.sub c hc)), div_sqrt_eq_iff (weight_pos hdown hd hsf) (weight_pos hdown hd' hsf') hm hn]

theorem boundaryAgrees_x (hk : P.k0x c < 0) : BoundaryAgrees P .x c ↔ LowerXAgrees P c := by
  obtain ⟨hne, -⟩ := hp.sfLow_ne c hc .x hk
  dsimp only [BoundaryAgrees, LowerXAgrees]
  rcases lt_or_gt_of_ne hne with hneg | hpos
  · have hno : P.NoFlow .x c := hneg
    rw [if_pos hneg, if_pos hno]
    exact ⟨fun _ _ _ h => absurd h (not_lt.mpr hneg.le), fun _ => rfl⟩
  have hno : ¬ P.NoFlow .x c := not_lt.mpr hpos.le
  rw [if_neg (not_lt.mpr hpos.le), if_neg hno]
  have hd : (P.view .x c).d = P.dx := rfl
  by_cases hy : P.k0y c < 0
  · have hvalue : P.valueRes .x c = √(P.slopeMagnitude ((P.view .x c).sfoLow P.dx) ((P.view .y c).sfoLow P.dx)) * P.mann c :=
      (boundaryRes_corner _ P hy).trans (hp.resistance_eq _ _ _)
    have hder : P.derRes .x c = √(P.slopeMagnitude ((P.view .x c).sfoLow P.dx) ((P.view .y c).sfoLow P.dy)) * P.mann c :=
      (boundaryRes_corner _ P hy).trans (hp.resistance_eq _ _ _)
    have hweight := weight_pos (hp.down_eq .x (hp.sub c hc)).2 hp.extents.1 hpos
    rw [hvalue, hder, hd, hp.derBoundary_eq_iff hc .x hp.extents.1 hp.extents.1 hpos hpos (hp.slopeMagnitude_pos _ _)
      (hp.slopeMagnitude_pos _ _), mul_right_inj' (pow_pos hweight 2).ne']
    exact ⟨fun h _ _ _ => h.symm, fun h => (h hk hy hpos).symm⟩
  · have hres : P.valueRes .x c = P.derRes .x c := (boundaryRes_side _ P hy).trans (boundaryRes_side _ P hy).symm
    rw [hres]
    exact ⟨fun _ _ h => absurd h hy, fun _ => rfl⟩

theorem boundaryAgrees_y (hk : P.k0y c < 0) : BoundaryAgrees P .y c ↔ LowerYAgrees P c := by
  obtain ⟨hne, hne'⟩ := hp.sfLow_ne c hc .y hk
  have hd : (P.view .y c).d = P.dy := rfl
  rw [hd] at hne'
  have hvalue : P.valueRes .y c = √(P.slopeMagnitude ((P.view .y c).sfoLow P.dx)
      (if P.k0x c < 0 then (P.view .x c).sfoLow P.dx else (P.view .x c).sfo)) * P.mann c := hp.resistance_eq _ _ _
  have hder : P.derRes .y c = √(P.slopeMagnitude ((P.view .y c).sfoLow P.dy)
      (if P.k0x c < 0 then (P.view .x c).sfoLow P.dx else (P.view .x c).sfo)) * P.mann c := hp.resistance_eq _ _ _
  have hres : P.valueRes .y c ≠ 0 ∧ P.derRes .y c ≠ 0 := by
    rw [hvalue, hder]
    have hmann := hp.mann_ne c (hp.sub c hc)
    exact ⟨mul_ne_zero (Real.sqrt_pos.mpr (hp.slopeMagnitude_pos _ _)).ne' hmann,
      mul_ne_zero (Real.sqrt_pos.mpr (hp.slopeMagnitude_pos _ _)).ne' hmann⟩
  have hdown := (hp.down_eq .y (hp.sub c hc)).2
  have hflow : ¬ P.NoFlow .y c ↔ 0 < (P.view .y c).sfLow P.dy ∧ ¬ (P.k0x c < 0 ∧ (P.view .x c).sfLow P.dx < 0) := by
    unfold NoFlow
    rw [not_or, not_lt]
    exact and_congr_left fun _ => ⟨fun h => lt_of_le_of_ne h hne'.symm, le_of_lt⟩
  unfold BoundaryAgrees LowerYAgrees
  simp only [hd, ← hflow]
  rcases lt_or_gt_of_ne hne with hneg | hpos
  · rw [if_pos hneg]
    by_cases hno : P.NoFlow .y c
    · rw [if_pos hno]
      exact ⟨fun _ _ => ⟨⟨fun h => absurd h (not_lt.mpr hneg.le), fun h => absurd hno h⟩, fun h => absurd h (not_lt.mpr hneg.le)⟩,
        fun _ => rfl⟩
    · rw [if_neg hno]
      have hder0 := derBoundary_ne_zero hdown hp.extents.2 (hflow.mp hno).1 hres.2
      exact ⟨fun h => absurd h.symm hder0, fun h => absurd ((h hk).1.mpr hno) (not_lt.mpr hneg.le)⟩
  · rw [if_neg (not_lt.mpr hpos.le)]
    by_cases hno : P.NoFlow .y c
    · rw [if_pos hno]
      have hvalue0 := derBoundary_ne_zero hdown hp.extents.1 hpos hres.1
      exact ⟨fun h => absurd h hvalue0, fun h => absurd hno ((h hk).1.mp hpos)⟩
    · rw [if_neg hno, hvalue, hder, hp.derBoundary_eq_iff hc .y hp.extents.1 hp.extents.2 hpos (hflow.mp hno).1
        (hp.slopeMagnitude_pos _ _) (hp.slopeMagnitude_pos _ _)]
      exact ⟨fun h _ => ⟨⟨fun _ => hno, fun _ => hpos⟩, fun _ => h⟩, fun h => (h hk).2 hpos⟩

omit hc in
/-- At every column of the subgrid, the derivatives by its own pressure are right exactly when they agree on its lower
boundaries and the columns before it are not those of another process. -/
theorem jacobian_iff (hzero : AllZero s) : (∀ c ∈ columns, ∀ ax, JacobianAt P ghostColumns columns s c ax) ↔
    ∀ c ∈ columns, DerivativesAgree P ghostColumns columns c := by
  refine forall₂_congr fun c hc => ?_
  simp only [hp.jacobianAt_iff hc _ hzero]
  constructor
  · intro h
    refine ⟨fun ax => (h ax).1, ?_, ?_⟩
    · intro hk
      exact (hp.boundaryAgrees_x hc hk).mp ((h .x).2 hk) hk
    · intro hk
      exact (hp.boundaryAgrees_y hc hk).mp ((h .y).2 hk) hk
  · intro h ax
    refine ⟨h.prev ax, fun hk => ?_⟩
    cases ax with
    | x => exact (hp.boundaryAgrees_x hc hk).mpr h.lowerX
    | y => exact (hp.boundaryAgrees_y hc hk).mpr h.lowerY

end WetSurface

/-! ## One column -/

/-- A domain of one column, one unit long in x and y, with water of depth 1. -/
def wetColumn (sx sy : ℝ) : DiffusiveData ℝ :=
  let space := ghostSpace (newSubgrid 0 0 0 1 1 1 0 0 0 0) 1
  { slopeX := ⟨space, fun _ => sx⟩
    slopeY := ⟨space, fun _ => sy⟩
    mannings := ⟨space, fun _ => 1⟩
    top := ⟨space, fun n => if n = subvectorEltIndex space 0 0 0 then 0 else -1⟩
    pressure := ⟨space, fun _ => 1⟩
    oldPressure := ⟨space, fun _ => 1⟩
    dx := 1
    dy := 1
    ovEpsilon := 1 }

def zeroRealState : DiffusiveState ℝ :=
  let zero : AxisArrays ℝ := ⟨fun _ => 0, fun _ => 0, fun _ => 0, fun _ => 0, fun _ => 0⟩
  ⟨⟨0, 0, 0, 0, 0⟩, zero, zero⟩

theorem zeroRealState_allZero : AllZero zeroRealState := by
  intro ax
  cases ax <;> rfl

section

variable (sx sy : ℝ)

theorem wetColumn_view (ax : PlaneAxis) (c : ℤ × ℤ) :
    ((wetColumn sx sy).view ax c).sf = (match ax with | .x => sx | .y => sy) ∧
      ((wetColumn sx sy).view ax c).sfLow 1 = (match ax with | .x => sx | .y => sy) + 1 := by
  have hone : pfmax (1 : ℝ) 0 = 1 := pfmax_of_pos one_pos
  cases ax <;> simp [AxisView.sf, AxisView.sfLow, view, wetColumn, depth, frictionSlope, hone]

theorem wetColumn_wetSurface {sx sy : ℝ} (hx : sx ≠ 0 ∧ sx + 1 ≠ 0) (hy : sy ≠ 0 ∧ sy + 1 ≠ 0) :
    (wetColumn sx sy).WetSurface [(0, 0)] [(0, 0)] where
  space := rfl
  inSpace c hc := by
    rw [List.mem_singleton.mp hc]
    simp only [InSpace, wetColumn]
    decide
  sub _ hc := hc
  inner c hc ax := by
    rw [List.mem_singleton.mp hc]
    simp only [InSpace, wetColumn]
    cases ax <;> decide
  top c hc := by
    rw [List.mem_singleton.mp hc]
    simp only [k1, itop, wetColumn]
    decide
  pressureSpace := ⟨⟨rfl, rfl⟩, rfl, rfl⟩
  extents := ⟨one_pos, one_pos⟩
  epsilon := one_pos
  mann_ne _ _ := one_ne_zero
  wet _ _ := one_pos
  sf_ne c _ ax := by
    rw [(wetColumn_view sx sy ax c).1, (wetColumn_view sx sy ax _).1]
    cases ax with
    | x => exact ⟨hx.1, fun _ => hx.1⟩
    | y => exact ⟨hy.1, fun _ => hy.1⟩
  sfLow_ne c _ ax _ := by
    have hview := (wetColumn_view sx sy ax c).2
    have hd : ((wetColumn sx sy).view ax c).d = 1 := by cases ax <;> rfl
    rw [hd]
    refine and_self_iff.mpr (hview.trans_ne ?_)
    cases ax with
    | x => exact hx.2
    | y => exact hy.2

end

theorem wetColumn_jacobian_iff :
    (∀ c ∈ [(0, 0)], ∀ ax, JacobianAt (wetColumn 1 1) [(0, 0)] [(0, 0)] zeroRealState c ax) ↔
      ∀ c ∈ [(0, 0)], DerivativesAgree (wetColumn 1 1) [(0, 0)] [(0, 0)] c :=
  (wetColumn_wetSurface ⟨by norm_num, by norm_num⟩ ⟨by norm_num, by norm_num⟩).jacobian_iff zeroRealState_allZero

/-- On square columns, in a corner over which water flows in y and not in x. -/
theorem wetColumn_not_jacobian : (wetColumn (-5) 1).WetSurface [(0, 0)] [(0, 0)] ∧ AllZero zeroRealState ∧
    ¬ ∀ c ∈ [(0, 0)], ∀ ax, JacobianAt (wetColumn (-5) 1) [(0, 0)] [(0, 0)] zeroRealState c ax := by
  have hwet : (wetColumn (-5) 1).WetSurface [(0, 0)] [(0, 0)] :=
    wetColumn_wetSurface ⟨by norm_num, by norm_num⟩ ⟨by norm_num, by norm_num⟩
  refine ⟨hwet, zeroRealState_allZero, fun h => ?_⟩
  have hmem : (0, 0) ∈ [((0, 0) : ℤ × ℤ)] := List.mem_singleton_self _
  have hkx : (wetColumn (-5) 1).k0x (0, 0) < 0 := by
    simp only [k0x, itop, wetColumn]
    decide
  have hky : (wetColumn (-5) 1).k0y (0, 0) < 0 := by
    simp only [k0y, itop, syV, wetColumn]
    decide
  have hx := (wetColumn_view (-5) 1 .x (0, 0)).2
  have hy := (wetColumn_view (-5) 1 .y (0, 0)).2
  have hagree := (hwet.boundaryAgrees_y hmem hky).mp (((hwet.jacobianAt_iff hmem .y zeroRealState_allZero).mp (h _ hmem .y)).2 hky)
  have hflow := (hagree hky).1.mp (show 0 < ((wetColumn (-5) 1).view .y (0, 0)).sfLow 1 by rw [hy]; norm_num)
  exact hflow.2 ⟨hkx, show ((wetColumn (-5) 1).view .x (0, 0)).sfLow 1 < 0 by rw [hx]; norm_num⟩

end DiffusiveData

end ParFlow
