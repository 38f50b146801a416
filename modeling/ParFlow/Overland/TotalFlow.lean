import ParFlow.Lib.TriangleSurface
import ParFlow.Overland.Fluxes
import ParFlow.Overland.FluxDefs

/-! The outflow of a domain is the surface mass balance of its active cells: water only flows out of them through the faces
towards inactive cells and the edge of the grid. -/

set_option linter.unusedSectionVars false

namespace ParFlow

open IntLoop NetFlow SameSurface

variable {K : Type} [Field K] [LinearOrder K] [IsStrictOrderedRing K]

/-! ## The sign of a flux -/

/-- The powers of numbers that are not negative are not negative. -/
structure PowerFns.KeepsSign (powers : PowerFns K) : Prop where
  half : ∀ x, 0 ≤ x → 0 ≤ powers.half x
  fiveThirds : ∀ x, 0 ≤ x → 0 ≤ powers.fiveThirds x

section

variable {powers : PowerFns K} (hzero : powers.KeepsZero) (hsign : powers.KeepsSign)

include hsign

theorem pySlope_nonneg (epsilon sx sy : K) : 0 ≤ pySlope powers epsilon sx sy :=
  (hsign.half _ (add_nonneg (mul_self_nonneg _) (mul_self_nonneg _))).trans (le_max_right _ _)

theorem pyFlux_nonneg {slope mann s p d : K} (hslope : 0 ≤ slope) (hmann : 0 < mann) (hs : s ≤ 0) (hp : 0 ≤ p) (hd : 0 ≤ d) :
    0 ≤ pyFlux powers slope mann s p d := by
  have hhalf := hsign.half slope hslope
  have hpower := hsign.fiveThirds p hp
  have hs' : 0 ≤ -s := neg_nonneg.mpr hs
  unfold pyFlux
  positivity

theorem pyFlux_nonpos {slope mann s p d : K} (hslope : 0 ≤ slope) (hmann : 0 < mann) (hs : 0 ≤ s) (hp : 0 ≤ p) (hd : 0 ≤ d) :
    pyFlux powers slope mann s p d ≤ 0 := by
  have h := pyFlux_nonneg hsign hslope hmann (neg_nonpos.mpr hs) hp hd
  have hneg : pyFlux powers slope mann (-s) p d = -pyFlux powers slope mann s p d := by
    unfold pyFlux
    ring
  rw [hneg] at h
  exact neg_nonneg.mp h

include hzero

/-- Into a dry column water only flows from the other side. -/
theorem pyUpwind_nonneg {slope mann s p d : K} (hslope : 0 ≤ slope) (hmann : 0 < mann) (hp : 0 ≤ p) (hd : 0 ≤ d) :
    0 ≤ pyUpwind powers slope mann s p 0 d := by
  unfold pyUpwind
  rw [mul_zero, max_self, zero_add]
  rcases le_or_gt s 0 with hs | hs
  · exact pyFlux_nonneg hsign hslope hmann hs (le_max_left _ _) hd
  · have hdry : max 0 (-npSign s * p) = 0 := by
      rw [show npSign s = 1 from if_pos hs, neg_one_mul]
      exact max_eq_left (neg_nonpos.mpr hp)
    rw [hdry]
    unfold pyFlux
    rw [hzero.fiveThirds, mul_zero, zero_mul]

theorem pyFlux_lower_nonpos {slope mann s p d : K} (hslope : 0 ≤ slope) (hmann : 0 < mann) (hp : 0 ≤ p) (hd : 0 ≤ d) :
    pyFlux powers slope mann s (max 0 (npSign s * p)) d ≤ 0 := by
  rcases le_or_gt 0 s with hs | hs
  · exact pyFlux_nonpos hsign hslope hmann hs (le_max_left _ _) hd
  · have hdry : max 0 (npSign s * p) = 0 := by
      rw [show npSign s = -1 by rw [npSign, if_neg (not_lt.mpr hs.le), if_pos hs], neg_one_mul]
      exact max_eq_left (neg_nonpos.mpr hp)
    rw [hdry]
    unfold pyFlux
    rw [hzero.fiveThirds, mul_zero, zero_mul]

theorem pyUpwind_nonpos {slope mann s pNext d : K} (hslope : 0 ≤ slope) (hmann : 0 < mann) (hp : 0 ≤ pNext) (hd : 0 ≤ d) :
    pyUpwind powers slope mann s 0 pNext d ≤ 0 := by
  unfold pyUpwind
  rw [mul_zero, max_self, add_zero]
  exact pyFlux_lower_nonpos hzero hsign hslope hmann hp hd

end

section

variable {f : ℤ → K} {n i : ℤ}

theorem lineFlux_nonneg (hi : 0 < i) (h : i = n ∨ f i = 0) : 0 ≤ lineFlux n f i := by
  unfold lineFlux
  split_ifs with hn h1
  · omega
  · rw [sub_add_cancel, h.resolve_left (by omega), neg_zero, max_self, sub_zero]
    exact le_max_left _ _
  · exact le_max_left _ _

theorem lineFlux_nonpos (hi : i < n) (h : i ≤ 0 ∨ f (i - 1) = 0) : lineFlux n f i ≤ 0 := by
  unfold lineFlux
  rw [if_pos (by omega)]
  split_ifs with h1
  · exact neg_nonpos.mpr (le_max_left _ _)
  · rw [h.resolve_left (by omega), max_self, zero_sub]
    exact neg_nonpos.mpr (le_max_left _ _)

end

/-! ## Active cells -/

/-- The mask of the uppermost layer. -/
def SurfaceActive (mask : Option (NdArray K)) (c : ℤ × ℤ) : Prop :=
  match mask with
  | some mask => mask.get (mask.dims.1 - 1, c.2, c.1) > 0
  | none => True

instance (mask : Option (NdArray K)) : DecidablePred (SurfaceActive mask) := fun c =>
  match mask with
  | some mask => inferInstanceAs (Decidable (mask.get (mask.dims.1 - 1, c.2, c.1) > 0))
  | none => instDecidableTrue

def surfaceCells (mask : Option (NdArray K)) (nx ny : ℤ) : Finset (ℤ × ℤ) :=
  (((upto 0 ny).flatMap fun j => (upto 0 nx).map fun i => (i, j)).filter fun c => SurfaceActive mask c).toFinset

/-- Arrays of one shape, with positive Manning coefficients and no positive pressure in inactive cells. -/
structure SurfaceArrays (pressure : NdArray K) (slopex mannings : PlaneArray K) (mask : Option (NdArray K))
    (nx ny nz : ℤ) : Prop where
  pressureDims : pressure.dims = (nz, ny, nx)
  slopeShape : slopex.nx = nx ∧ slopex.ny = ny
  maskDims : ∀ m, mask = some m → m.dims = (nz, ny, nx)
  mannings_pos : ∀ i j, 0 ≤ i → i < nx → 0 ≤ j → j < ny → 0 < mannings.get j i
  dry : ∀ c : ℤ × ℤ, (0 ≤ c.1 ∧ c.1 < nx) ∧ 0 ≤ c.2 ∧ c.2 < ny → ¬ SurfaceActive mask c →
    pressure.get (nz - 1, c.2, c.1) ≤ 0

section

variable {pressure : NdArray K} {slopex slopey mannings : PlaneArray K} {mask : Option (NdArray K)} {nx ny nz : ℤ}
  {c : ℤ × ℤ}

theorem mem_surfaceCells : c ∈ surfaceCells mask nx ny ↔
    ((0 ≤ c.1 ∧ c.1 < nx) ∧ 0 ≤ c.2 ∧ c.2 < ny) ∧ SurfaceActive mask c := by
  rw [surfaceCells, List.mem_toFinset, List.mem_filter, mem_rows, mem_upto, mem_upto, decide_eq_true_iff]

theorem flowMask_get (slopex : PlaneArray K) (j i : ℤ) :
    (flowMask slopex mask).get j i = if SurfaceActive mask (i, j) then 1 else 0 := by
  cases mask with
  | none => exact (if_pos trivial).symm
  | some mask => rfl

namespace SurfaceArrays

variable (hA : SurfaceArrays pressure slopex mannings mask nx ny nz)

include hA

theorem flowMask_shape : (flowMask slopex mask).nx = nx ∧ (flowMask slopex mask).ny = ny := by
  cases mask with
  | none => exact hA.slopeShape
  | some m =>
    have hdims : (m.map fun m => if m > 0 then (1 : K) else 0).dims = (nz, ny, nx) := hA.maskDims m rfl
    exact ⟨congrArg (fun d => d.2.2) hdims, congrArg (fun d => d.2.1) hdims⟩

theorem topDepth_eq_zero (hc : c ∉ surfaceCells mask nx ny) : topDepth pressure c = 0 := by
  unfold topDepth
  rw [hA.pressureDims]
  split_ifs with hdom
  · exact max_eq_right (hA.dry c hdom fun h => hc (mem_surfaceCells.mpr ⟨hdom, h⟩))
  · rfl

/-! ## Fluxes towards dry columns -/

section Kinematic

variable {m : NdArray K} (hm : m.dims = (nz, ny, nx))

include hm

/-- Copied Manning coefficients are those of other columns of the grid. -/
theorem copyFromRight_pos {a : PlaneArray K} (ha : ∀ i j, 0 ≤ i → i < nx → 0 ≤ j → j < ny → 0 < a.get j i) (i j : ℤ)
    (hi : 0 ≤ i) (hi' : i < nx) (hj : 0 ≤ j) (hj' : j < ny) :
    0 < (a.copyFromRight fun j i => (surfaceMask m).diffColumns.get j i = 1).get j i := by
  show 0 < if (surfaceMask m).diffColumns.get j i = 1 then a.get j (i + 1) else a.get j i
  split_ifs with hcopy
  · refine ha (i + 1) j (by omega) ?_ hj hj'
    by_contra hlast
    have hdiff : (surfaceMask m).diffColumns.get j i = 0 - (surfaceMask m).get j i := by
      show (if i + 1 < m.dims.2.2 then _ else (0 : ℤ)) - _ = _
      rw [hm, if_neg hlast]
    have hbit : 0 ≤ (surfaceMask m).get j i := by
      show 0 ≤ if m.get (m.dims.1 - 1, j, i) > 0 then (1 : ℤ) else 0
      split_ifs <;> decide
    omega
  · exact ha i j hi hi' hj hj'

theorem copyFromBelow_pos {a : PlaneArray K} (ha : ∀ i j, 0 ≤ i → i < nx → 0 ≤ j → j < ny → 0 < a.get j i) (i j : ℤ)
    (hi : 0 ≤ i) (hi' : i < nx) (hj : 0 ≤ j) (hj' : j < ny) :
    0 < (a.copyFromBelow fun j i => (surfaceMask m).diffRows.get j i = 1).get j i := by
  show 0 < if (surfaceMask m).diffRows.get j i = 1 then a.get (j + 1) i else a.get j i
  split_ifs with hcopy
  · refine ha i (j + 1) hi hi' (by omega) ?_
    by_contra hlast
    have hdiff : (surfaceMask m).diffRows.get j i = 0 - (surfaceMask m).get j i := by
      show (if j + 1 < m.dims.2.1 then _ else (0 : ℤ)) - _ = _
      rw [hm, if_neg hlast]
    have hbit : 0 ≤ (surfaceMask m).get j i := by
      show 0 ≤ if m.get (m.dims.1 - 1, j, i) > 0 then (1 : ℤ) else 0
      split_ifs <;> decide
    omega
  · exact ha i j hi hi' hj hj'

variable {powers : PowerFns K} (hzero : powers.KeepsZero) (hsign : powers.KeepsSign) {dx dy : K} (hdx : 0 ≤ dx) (hdy : 0 ≤ dy)
  (epsilon : K) (hdom : (0 ≤ c.1 ∧ c.1 < nx) ∧ 0 ≤ c.2 ∧ c.2 < ny)

include hzero hsign hdom

include hdy in
theorem kinematic_east (hdry : topDepth pressure (c + (1, 0)) = 0) :
    0 ≤ (pyOverlandFlowKinematic powers (m.map fun m => if m > 0 then 1 else 0) (clippedTop pressure) slopex slopey mannings
      dx dy epsilon).1.get c.2 (c.1 + 1) := by
  have hdims : (0 ≤ c.1 ∧ c.1 < pressure.dims.2.2) ∧ 0 ≤ c.2 ∧ c.2 < pressure.dims.2.1 := by rwa [hA.pressureDims]
  have hface : (pyOverlandFlowKinematic powers (m.map fun m => if m > 0 then 1 else 0) (clippedTop pressure) slopex slopey
      mannings dx dy epsilon).1.get c.2 (c.1 + 1) = _ := if_neg (show ¬ c.1 + 1 < 1 by omega)
  have hdry' := (paddedX_eq hdims).trans hdry
  rw [hface]
  dsimp only
  rw [add_sub_cancel_right, clippedTop_eq hdims, hdry']
  exact pyUpwind_nonneg hzero hsign (pySlope_nonneg hsign _ _ _)
    (hA.copyFromRight_pos hm hA.mannings_pos c.1 c.2 hdom.1.1 hdom.1.2 hdom.2.1 hdom.2.2) (topDepth_nonneg _ _) hdy

include hdy in
theorem kinematic_west (hdry : topDepth pressure (c - (1, 0)) = 0) :
    (pyOverlandFlowKinematic powers (m.map fun m => if m > 0 then 1 else 0) (clippedTop pressure) slopex slopey mannings
      dx dy epsilon).1.get c.2 c.1 ≤ 0 := by
  have hdims : (0 ≤ c.1 ∧ c.1 < pressure.dims.2.2) ∧ 0 ≤ c.2 ∧ c.2 < pressure.dims.2.1 := by rwa [hA.pressureDims]
  rcases lt_or_ge c.1 1 with hfirst | hlater
  · have h0 : c.1 = 0 := by omega
    have hface : (pyOverlandFlowKinematic powers (m.map fun m => if m > 0 then 1 else 0) (clippedTop pressure) slopex slopey
        mannings dx dy epsilon).1.get c.2 c.1 = _ := if_pos (show c.1 < 1 from hfirst)
    have hwet := clippedTop_eq hdims
    rw [h0] at hwet
    rw [hface]
    dsimp only
    rw [hwet]
    exact pyFlux_lower_nonpos hzero hsign (pySlope_nonneg hsign _ _ _)
      (hA.copyFromRight_pos hm hA.mannings_pos 0 c.2 le_rfl (by omega) hdom.2.1 hdom.2.2) (topDepth_nonneg _ _) hdy
  · have hdims' : (0 ≤ (c - (1, 0)).1 ∧ (c - (1, 0)).1 < pressure.dims.2.2) ∧
        0 ≤ (c - (1, 0)).2 ∧ (c - (1, 0)).2 < pressure.dims.2.1 := by
      simp only [Prod.fst_sub, Prod.snd_sub]
      omega
    have hface : (pyOverlandFlowKinematic powers (m.map fun m => if m > 0 then 1 else 0) (clippedTop pressure) slopex slopey
        mannings dx dy epsilon).1.get c.2 c.1 = _ := if_neg (show ¬ c.1 < 1 by omega)
    have hdry' := (clippedTop_eq hdims').trans hdry
    have hwet := paddedX_eq hdims'
    rw [sub_add_cancel] at hwet
    simp only [Prod.fst_sub, Prod.snd_sub, sub_zero] at hdry' hwet
    rw [hface]
    dsimp only
    rw [hdry', hwet]
    exact pyUpwind_nonpos hzero hsign (pySlope_nonneg hsign _ _ _)
      (hA.copyFromRight_pos hm hA.mannings_pos (c.1 - 1) c.2 (by omega) (by omega) hdom.2.1 hdom.2.2) (topDepth_nonneg _ _) hdy

omit hzero hsign hdom in
theorem copiedTwice_pos (i j : ℤ) (hi : 0 ≤ i) (hi' : i < nx) (hj : 0 ≤ j) (hj' : j < ny) :
    0 < (copiedTwice m mannings).get j i :=
  hA.copyFromBelow_pos hm (hA.copyFromRight_pos hm hA.mannings_pos) i j hi hi' hj hj'

include hdx in
theorem kinematic_north (hdry : topDepth pressure (c + (0, 1)) = 0) :
    0 ≤ (pyOverlandFlowKinematic powers (m.map fun m => if m > 0 then 1 else 0) (clippedTop pressure) slopex slopey mannings
      dx dy epsilon).2.get (c.2 + 1) c.1 := by
  have hdims : (0 ≤ c.1 ∧ c.1 < pressure.dims.2.2) ∧ 0 ≤ c.2 ∧ c.2 < pressure.dims.2.1 := by rwa [hA.pressureDims]
  have hface : (pyOverlandFlowKinematic powers (m.map fun m => if m > 0 then 1 else 0) (clippedTop pressure) slopex slopey
      mannings dx dy epsilon).2.get (c.2 + 1) c.1 = _ := if_neg (show ¬ c.2 + 1 < 1 by omega)
  have hdry' := (paddedY_eq hdims).trans hdry
  rw [hface]
  dsimp only
  rw [add_sub_cancel_right, clippedTop_eq hdims, hdry']
  exact pyUpwind_nonneg hzero hsign (pySlope_nonneg hsign _ _ _)
    (hA.copiedTwice_pos hm c.1 c.2 hdom.1.1 hdom.1.2 hdom.2.1 hdom.2.2) (topDepth_nonneg _ _) hdx

include hdx in
theorem kinematic_south (hdry : topDepth pressure (c - (0, 1)) = 0) :
    (pyOverlandFlowKinematic powers (m.map fun m => if m > 0 then 1 else 0) (clippedTop pressure) slopex slopey mannings
      dx dy epsilon).2.get c.2 c.1 ≤ 0 := by
  have hdims : (0 ≤ c.1 ∧ c.1 < pressure.dims.2.2) ∧ 0 ≤ c.2 ∧ c.2 < pressure.dims.2.1 := by rwa [hA.pressureDims]
  rcases lt_or_ge c.2 1 with hfirst | hlater
  · have h0 : c.2 = 0 := by omega
    have hface : (pyOverlandFlowKinematic powers (m.map fun m => if m > 0 then 1 else 0) (clippedTop pressure) slopex slopey
        mannings dx dy epsilon).2.get c.2 c.1 = _ := if_pos (show c.2 < 1 from hfirst)
    have hwet := clippedTop_eq hdims
    rw [h0] at hwet
    rw [hface]
    dsimp only
    rw [hwet]
    exact pyFlux_lower_nonpos hzero hsign (pySlope_nonneg hsign _ _ _)
      (hA.copiedTwice_pos hm c.1 0 hdom.1.1 hdom.1.2 le_rfl (by omega)) (topDepth_nonneg _ _) hdx
  · have hdims' : (0 ≤ (c - (0, 1)).1 ∧ (c - (0, 1)).1 < pressure.dims.2.2) ∧
        0 ≤ (c - (0, 1)).2 ∧ (c - (0, 1)).2 < pressure.dims.2.1 := by
      simp only [Prod.fst_sub, Prod.snd_sub]
      omega
    have hface : (pyOverlandFlowKinematic powers (m.map fun m => if m > 0 then 1 else 0) (clippedTop pressure) slopex slopey
        mannings dx dy epsilon).2.get c.2 c.1 = _ := if_neg (show ¬ c.2 < 1 by omega)
    have hdry' := (clippedTop_eq hdims').trans hdry
    have hwet := paddedY_eq hdims'
    rw [sub_add_cancel] at hwet
    simp only [Prod.fst_sub, Prod.snd_sub, sub_zero] at hdry' hwet
    rw [hface]
    dsimp only
    rw [hdry', hwet]
    exact pyUpwind_nonpos hzero hsign (pySlope_nonneg hsign _ _ _)
      (hA.copiedTwice_pos hm c.1 (c.2 - 1) hdom.1.1 hdom.1.2 (by omega) (by omega)) (topDepth_nonneg _ _) hdx

end Kinematic

section Flow

variable {powers : PowerFns K} (hzero : powers.KeepsZero) (dx dy : K) (hdom : (0 ≤ c.1 ∧ c.1 < nx) ∧ 0 ≤ c.2 ∧ c.2 < ny)

/-- `qx` or `qy` at one column. -/
def pyVelocity (powers : PowerFns K) (pressure : NdArray K) (slope mannings : PlaneArray K) (d : K) (j i : ℤ) : K :=
  -(npSign (slope.get j i) * powers.half |slope.get j i| / mannings.get j i) *
    powers.fiveThirds ((clippedTop pressure).get j i) * d

include hzero

theorem pyVelocity_dry {i j : ℤ} (hdom : (0 ≤ i ∧ i < nx) ∧ 0 ≤ j ∧ j < ny) (hdry : topDepth pressure (i, j) = 0)
    (slope mannings : PlaneArray K) (d : K) : pyVelocity powers pressure slope mannings d j i = 0 := by
  have hclipped := clippedTop_eq (c := (i, j)) (by rwa [hA.pressureDims])
  unfold pyVelocity
  rw [hclipped.trans hdry, hzero.fiveThirds, mul_zero, zero_mul]

include hdom

theorem flow_east (hdry : topDepth pressure (c + (1, 0)) = 0) :
    0 ≤ (pyOverlandFlow powers (clippedTop pressure) slopex slopey mannings dx dy).1.get c.2 (c.1 + 1) := by
  have hline : (pyOverlandFlow powers (clippedTop pressure) slopex slopey mannings dx dy).1.get c.2 (c.1 + 1) =
      lineFlux pressure.dims.2.2 (pyVelocity powers pressure slopex mannings dy c.2) (c.1 + 1) := rfl
  have hdry' : topDepth pressure (c.1 + 1, c.2) = 0 := by rwa [← add_zero c.2]
  rw [hline, hA.pressureDims]
  refine lineFlux_nonneg (show 0 < c.1 + 1 by omega) ((lt_or_ge (c.1 + 1) nx).symm.imp (fun h => ?_) fun h => ?_)
  · exact le_antisymm hdom.1.2 h
  · exact hA.pyVelocity_dry hzero ⟨⟨by omega, h⟩, hdom.2⟩ hdry' slopex mannings dy

theorem flow_west (hdry : topDepth pressure (c - (1, 0)) = 0) :
    (pyOverlandFlow powers (clippedTop pressure) slopex slopey mannings dx dy).1.get c.2 c.1 ≤ 0 := by
  have hline : (pyOverlandFlow powers (clippedTop pressure) slopex slopey mannings dx dy).1.get c.2 c.1 =
      lineFlux pressure.dims.2.2 (pyVelocity powers pressure slopex mannings dy c.2) c.1 := rfl
  have hdry' : topDepth pressure (c.1 - 1, c.2) = 0 := by rwa [← sub_zero c.2]
  rw [hline, hA.pressureDims]
  refine lineFlux_nonpos hdom.1.2 ((le_or_gt c.1 0).imp id fun h => ?_)
  exact hA.pyVelocity_dry hzero ⟨⟨by omega, by omega⟩, hdom.2⟩ hdry' slopex mannings dy

theorem flow_north (hdry : topDepth pressure (c + (0, 1)) = 0) :
    0 ≤ (pyOverlandFlow powers (clippedTop pressure) slopex slopey mannings dx dy).2.get (c.2 + 1) c.1 := by
  have hline : (pyOverlandFlow powers (clippedTop pressure) slopex slopey mannings dx dy).2.get (c.2 + 1) c.1 =
      lineFlux pressure.dims.2.1 (fun j => pyVelocity powers pressure slopey mannings dx j c.1) (c.2 + 1) := rfl
  have hdry' : topDepth pressure (c.1, c.2 + 1) = 0 := by rwa [← add_zero c.1]
  rw [hline, hA.pressureDims]
  refine lineFlux_nonneg (show 0 < c.2 + 1 by omega) ((lt_or_ge (c.2 + 1) ny).symm.imp (fun h => ?_) fun h => ?_)
  · exact le_antisymm hdom.2.2 h
  · exact hA.pyVelocity_dry hzero ⟨hdom.1, by omega, h⟩ hdry' slopey mannings dx

theorem flow_south (hdry : topDepth pressure (c - (0, 1)) = 0) :
    (pyOverlandFlow powers (clippedTop pressure) slopex slopey mannings dx dy).2.get c.2 c.1 ≤ 0 := by
  have hline : (pyOverlandFlow powers (clippedTop pressure) slopex slopey mannings dx dy).2.get c.2 c.1 =
      lineFlux pressure.dims.2.1 (fun j => pyVelocity powers pressure slopey mannings dx j c.1) c.2 := rfl
  have hdry' : topDepth pressure (c.1, c.2 - 1) = 0 := by rwa [← sub_zero c.1]
  rw [hline, hA.pressureDims]
  refine lineFlux_nonpos hdom.2.2 ((le_or_gt c.2 0).imp id fun h => ?_)
  exact hA.pyVelocity_dry hzero ⟨hdom.1, by omega, by omega⟩ hdry' slopey mannings dx

end Flow

theorem fluxes_shape (powers : PowerFns K) (slopey : PlaneArray K) (dx dy : K) (method : FlowMethod) (epsilon : K) :
    (calculateOverlandFluxes powers pressure slopex slopey mannings dx dy method epsilon mask).1.nx = nx + 1 ∧
      (calculateOverlandFluxes powers pressure slopex slopey mannings dx dy method epsilon mask).2.ny = ny + 1 := by
  cases method with
  | overlandFlow =>
    show 1 + (pressure.dims.2.2 - 1) + 1 = nx + 1 ∧ 1 + (pressure.dims.2.1 - 1) + 1 = ny + 1
    rw [hA.pressureDims]
    exact ⟨by ring, by ring⟩
  | overlandKinematic =>
    show 1 + pressure.dims.2.2 = nx + 1 ∧ 1 + pressure.dims.2.1 = ny + 1
    rw [hA.pressureDims]
    exact ⟨add_comm _ _, add_comm _ _⟩

/-- With both methods nothing flows in from a dry column or from outside the grid. -/
theorem fluxes_sign {powers : PowerFns K} (hzero : powers.KeepsZero) (hsign : powers.KeepsSign) {dx dy : K} (hdx : 0 ≤ dx)
    (hdy : 0 ≤ dy) (method : FlowMethod) (epsilon : K) (hdom : (0 ≤ c.1 ∧ c.1 < nx) ∧ 0 ≤ c.2 ∧ c.2 < ny) :
    let q := calculateOverlandFluxes powers pressure slopex slopey mannings dx dy method epsilon mask
    (topDepth pressure (c + (1, 0)) = 0 → 0 ≤ q.1.get c.2 (c.1 + 1)) ∧ (topDepth pressure (c - (1, 0)) = 0 → q.1.get c.2 c.1 ≤ 0) ∧
      (topDepth pressure (c + (0, 1)) = 0 → 0 ≤ q.2.get (c.2 + 1) c.1) ∧
        (topDepth pressure (c - (0, 1)) = 0 → q.2.get c.2 c.1 ≤ 0) := by
  cases method with
  | overlandFlow =>
    exact ⟨hA.flow_east hzero dx dy hdom, hA.flow_west hzero dx dy hdom, hA.flow_north hzero dx dy hdom,
      hA.flow_south hzero dx dy hdom⟩
  | overlandKinematic =>
    have hm : (mask.getD (pressure.map fun _ => 1)).dims = (nz, ny, nx) := by
      cases mask with
      | none => exact hA.pressureDims
      | some m => exact hA.maskDims m rfl
    exact ⟨hA.kinematic_east hm hzero hsign hdy epsilon hdom, hA.kinematic_west hm hzero hsign hdy epsilon hdom,
      hA.kinematic_north hm hzero hsign hdx epsilon hdom, hA.kinematic_south hm hzero hsign hdx epsilon hdom⟩

/-! ## The edges of the mask -/

/-- The mask, continued with zeros outside the grid. -/
def activeBit (mask : Option (NdArray K)) (nx ny : ℤ) (c : ℤ × ℤ) : K := if c ∈ surfaceCells mask nx ny then 1 else 0

omit hA in
theorem edge_eq_one {c d : ℤ × ℤ} : max 0 (activeBit mask nx ny c - activeBit mask nx ny d) = 1 ↔
    c ∈ surfaceCells mask nx ny ∧ d ∉ surfaceCells mask nx ny := by
  unfold activeBit
  by_cases hc : c ∈ surfaceCells mask nx ny <;> by_cases hd : d ∈ surfaceCells mask nx ny <;> simp [hc, hd]

theorem flowMask_inside (hdom : (0 ≤ c.1 ∧ c.1 < nx) ∧ 0 ≤ c.2 ∧ c.2 < ny) :
    (flowMask slopex mask).get c.2 c.1 = activeBit mask nx ny c := by
  rw [flowMask_get]
  exact if_congr ((and_iff_right hdom).symm.trans mem_surfaceCells.symm) rfl rfl

omit hA in
theorem activeBit_outside (hout : ¬ ((0 ≤ c.1 ∧ c.1 < nx) ∧ 0 ≤ c.2 ∧ c.2 < ny)) : activeBit mask nx ny c = 0 :=
  if_neg fun h => hout (mem_surfaceCells.mp h).1

section

variable (hdom : (0 ≤ c.1 ∧ c.1 < nx) ∧ 0 ≤ c.2 ∧ c.2 < ny)

include hdom

theorem diffColumns_eq : (flowMask slopex mask).diffColumns.get c.2 c.1 =
    activeBit mask nx ny (c + (1, 0)) - activeBit mask nx ny c := by
  show (if c.1 + 1 < (flowMask slopex mask).nx then (flowMask slopex mask).get c.2 (c.1 + 1) else 0) - _ = _
  rw [hA.flowMask_inside hdom, hA.flowMask_shape.1]
  refine congrArg (· - activeBit mask nx ny c) ?_
  split_ifs with h
  · have hnext := hA.flowMask_inside (c := c + (1, 0)) (by simp only [Prod.fst_add, Prod.snd_add]; omega)
    rwa [Prod.fst_add, Prod.snd_add, add_zero] at hnext
  · exact (activeBit_outside (by simp only [Prod.fst_add, Prod.snd_add]; omega)).symm

theorem diffColumnsBefore_eq : (flowMask slopex mask).diffColumnsBefore.get c.2 c.1 =
    activeBit mask nx ny c - activeBit mask nx ny (c - (1, 0)) := by
  show _ - (if 0 < c.1 then (flowMask slopex mask).get c.2 (c.1 - 1) else 0) = _
  rw [hA.flowMask_inside hdom]
  refine congrArg (activeBit mask nx ny c - ·) ?_
  split_ifs with h
  · have hnext := hA.flowMask_inside (c := c - (1, 0)) (by simp only [Prod.fst_sub, Prod.snd_sub]; omega)
    rwa [Prod.fst_sub, Prod.snd_sub, sub_zero] at hnext
  · exact (activeBit_outside (by simp only [Prod.fst_sub, Prod.snd_sub]; omega)).symm

theorem diffRows_eq : (flowMask slopex mask).diffRows.get c.2 c.1 =
    activeBit mask nx ny (c + (0, 1)) - activeBit mask nx ny c := by
  show (if c.2 + 1 < (flowMask slopex mask).ny then (flowMask slopex mask).get (c.2 + 1) c.1 else 0) - _ = _
  rw [hA.flowMask_inside hdom, hA.flowMask_shape.2]
  refine congrArg (· - activeBit mask nx ny c) ?_
  split_ifs with h
  · have hnext := hA.flowMask_inside (c := c + (0, 1)) (by simp only [Prod.fst_add, Prod.snd_add]; omega)
    rwa [Prod.fst_add, Prod.snd_add, add_zero] at hnext
  · exact (activeBit_outside (by simp only [Prod.fst_add, Prod.snd_add]; omega)).symm

theorem diffRowsBefore_eq : (flowMask slopex mask).diffRowsBefore.get c.2 c.1 =
    activeBit mask nx ny c - activeBit mask nx ny (c - (0, 1)) := by
  show _ - (if 0 < c.2 then (flowMask slopex mask).get (c.2 - 1) c.1 else 0) = _
  rw [hA.flowMask_inside hdom]
  refine congrArg (activeBit mask nx ny c - ·) ?_
  split_ifs with h
  · have hnext := hA.flowMask_inside (c := c - (0, 1)) (by simp only [Prod.fst_sub, Prod.snd_sub]; omega)
    rwa [Prod.fst_sub, Prod.snd_sub, sub_zero] at hnext
  · exact (activeBit_outside (by simp only [Prod.fst_sub, Prod.snd_sub]; omega)).symm

end

/-- The sum over the cells that an edge array marks. -/
theorem sumPositive_eq {a e : PlaneArray K} {d : ℤ × ℤ → ℤ × ℤ} {v : ℤ × ℤ → K} (hshape : e.nx = nx ∧ e.ny = ny)
    (he : ∀ c : ℤ × ℤ, (0 ≤ c.1 ∧ c.1 < nx) ∧ 0 ≤ c.2 ∧ c.2 < ny →
      e.get c.2 c.1 = max 0 (activeBit mask nx ny c - activeBit mask nx ny (d c)))
    (hv : ∀ c ∈ surfaceCells mask nx ny, d c ∉ surfaceCells mask nx ny → max 0 (a.get c.2 c.1) = v c) :
    sumPositive a (whereOne e) = ∑ c ∈ surfaceCells mask nx ny with d c ∉ surfaceCells mask nx ny, v c := by
  have hmem : ∀ c, c ∈ whereOne e ↔ c ∈ surfaceCells mask nx ny ∧ d c ∉ surfaceCells mask nx ny := by
    intro c
    rw [whereOne, List.mem_filter, mem_rows, mem_upto, mem_upto, decide_eq_true_iff, hshape.1, hshape.2]
    constructor
    · exact fun h => edge_eq_one.mp ((he c h.1).symm.trans h.2)
    · intro h
      have hdom := (mem_surfaceCells.mp h.1).1
      exact ⟨hdom, (he c hdom).trans (edge_eq_one.mpr h)⟩
  have hset : (whereOne e).toFinset = {c ∈ surfaceCells mask nx ny | d c ∉ surfaceCells mask nx ny} := by
    ext c
    rw [List.mem_toFinset, Finset.mem_filter, hmem]
  have hnodup : (whereOne e).Nodup := (rows_nodup (upto_nodup 0 e.ny) (upto_nodup 0 e.nx)).filter _
  unfold sumPositive
  rw [← hset, ← List.sum_toFinset _ hnodup]
  refine Finset.sum_congr rfl fun c hc => ?_
  rw [List.mem_toFinset, hmem] at hc
  exact hv c hc.1 hc.2

end SurfaceArrays

end

/-! ## The mass balance -/

/-- What flows out of the active cells, each by itself. -/
def massBalance (cells : Finset (ℤ × ℤ)) (q : PlaneArray K × PlaneArray K) : K :=
  ∑ c ∈ cells, (q.1.get c.2 (c.1 + 1) - q.1.get c.2 c.1 + q.2.get (c.2 + 1) c.1 - q.2.get c.2 c.1)

/-- What flows out through the faces of the active cells that border on no other active cell. -/
def edgeOutflow (cells : Finset (ℤ × ℤ)) (q : PlaneArray K × PlaneArray K) : K :=
  ∑ c ∈ cells with c + (1, 0) ∉ cells, q.1.get c.2 (c.1 + 1) + ∑ c ∈ cells with c - (1, 0) ∉ cells, -q.1.get c.2 c.1 +
    ∑ c ∈ cells with c + (0, 1) ∉ cells, q.2.get (c.2 + 1) c.1 + ∑ c ∈ cells with c - (0, 1) ∉ cells, -q.2.get c.2 c.1

theorem massBalance_eq_edgeOutflow (cells : Finset (ℤ × ℤ)) (q : PlaneArray K × PlaneArray K) :
    massBalance cells q = edgeOutflow cells q := by
  have hx := sum_faces (Equiv.addRight ((1, 0) : ℤ × ℤ)) cells fun c => q.1.get c.2 c.1
  have hy := sum_faces (Equiv.addRight ((0, 1) : ℤ × ℤ)) cells fun c => q.2.get c.2 c.1
  simp only [Equiv.coe_addRight, Equiv.addRight_symm, Prod.fst_add, Prod.snd_add, add_zero, ← sub_eq_add_neg] at hx hy
  have hsplit : ∀ a b c d : K, a - b + (c - d) = a + -b + c + -d := fun a b c d => by ring
  unfold massBalance edgeOutflow
  simp only [add_sub_assoc, Finset.sum_add_distrib, hx, hy, Finset.sum_neg_distrib]
  exact hsplit _ _ _ _

theorem calculateOverlandFlow_eq {powers : PowerFns K} (hzero : powers.KeepsZero) (hsign : powers.KeepsSign)
    {pressure : NdArray K} {slopex mannings : PlaneArray K} {mask : Option (NdArray K)} {nx ny nz : ℤ}
    (hA : SurfaceArrays pressure slopex mannings mask nx ny nz) (slopey : PlaneArray K) {dx dy : K} (hdx : 0 ≤ dx) (hdy : 0 ≤ dy)
    (method : FlowMethod) (epsilon : K) :
    let q := calculateOverlandFluxes powers pressure slopex slopey mannings dx dy method epsilon mask
    let flow := calculateOverlandFlow powers pressure slopex slopey mannings dx dy method epsilon mask
    flow = massBalance (surfaceCells mask nx ny) q ∧ flow = edgeOutflow (surfaceCells mask nx ny) q := by
  intro q flow
  have hqx : q.1.nx = nx + 1 ∧ q.2.ny = ny + 1 := hA.fluxes_shape powers slopey dx dy method epsilon
  have hsigns := fun c hdom =>
    @SurfaceArrays.fluxes_sign _ _ _ _ _ slopex slopey _ _ _ _ _ c hA _ hzero hsign _ _ hdx hdy method epsilon hdom
  obtain ⟨hnx, hny⟩ := hA.flowMask_shape
  have heast : sumPositive q.1.rollColumns (whereOne ((flowMask slopex mask).diffColumns.map fun d => max 0 (-d))) =
      ∑ c ∈ surfaceCells mask nx ny with c + (1, 0) ∉ surfaceCells mask nx ny, q.1.get c.2 (c.1 + 1) := by
    refine hA.sumPositive_eq ⟨hnx, hny⟩ (fun c hdom => ?_) fun c hc hnext => ?_
    · exact congrArg (max 0 <| -·) (hA.diffColumns_eq hdom) |>.trans (by rw [neg_sub])
    · have hdom := (mem_surfaceCells.mp hc).1
      have hroll : q.1.rollColumns.get c.2 c.1 = q.1.get c.2 (c.1 + 1) := congrArg (q.1.get c.2) (if_pos (by omega))
      rw [hroll]
      exact max_eq_right ((hsigns c hdom).1 (hA.topDepth_eq_zero hnext))
  have hnorth : sumPositive q.2.rollRows (whereOne ((flowMask slopex mask).diffRows.map fun d => max 0 (-d))) =
      ∑ c ∈ surfaceCells mask nx ny with c + (0, 1) ∉ surfaceCells mask nx ny, q.2.get (c.2 + 1) c.1 := by
    refine hA.sumPositive_eq ⟨hnx, hny⟩ (fun c hdom => ?_) fun c hc hnext => ?_
    · exact congrArg (max 0 <| -·) (hA.diffRows_eq hdom) |>.trans (by rw [neg_sub])
    · have hdom := (mem_surfaceCells.mp hc).1
      have hroll : q.2.rollRows.get c.2 c.1 = q.2.get (c.2 + 1) c.1 := congrArg (fun j => q.2.get j c.1) (if_pos (by omega))
      rw [hroll]
      exact max_eq_right ((hsigns c hdom).2.2.1 (hA.topDepth_eq_zero hnext))
  have hwest : sumPositive (q.1.map fun q => -q) (whereOne ((flowMask slopex mask).diffColumnsBefore.map fun d => max 0 d)) =
      ∑ c ∈ surfaceCells mask nx ny with c - (1, 0) ∉ surfaceCells mask nx ny, -q.1.get c.2 c.1 :=
    hA.sumPositive_eq ⟨hnx, hny⟩ (fun c hdom => congrArg (max 0) (hA.diffColumnsBefore_eq hdom)) fun c hc hbefore =>
      max_eq_right (neg_nonneg.mpr ((hsigns c (mem_surfaceCells.mp hc).1).2.1 (hA.topDepth_eq_zero hbefore)))
  have hsouth : sumPositive (q.2.map fun q => -q) (whereOne ((flowMask slopex mask).diffRowsBefore.map fun d => max 0 d)) =
      ∑ c ∈ surfaceCells mask nx ny with c - (0, 1) ∉ surfaceCells mask nx ny, -q.2.get c.2 c.1 :=
    hA.sumPositive_eq ⟨hnx, hny⟩ (fun c hdom => congrArg (max 0) (hA.diffRowsBefore_eq hdom)) fun c hc hbefore =>
      max_eq_right (neg_nonneg.mpr ((hsigns c (mem_surfaceCells.mp hc).1).2.2.2 (hA.topDepth_eq_zero hbefore)))
  have hedges : flow = edgeOutflow (surfaceCells mask nx ny) q := by
    show sumPositive q.2.rollRows _ + sumPositive (q.2.map fun q => -q) _ + sumPositive (q.1.map fun q => -q) _ +
      sumPositive q.1.rollColumns _ = _
    rw [heast, hnorth, hwest, hsouth]
    unfold edgeOutflow
    ring
  exact ⟨hedges.trans (massBalance_eq_edgeOutflow _ _).symm, hedges⟩

/-! ## A surface with a hole -/

/-- Water of depth one on the active columns of the corner. -/
def shallowPressure : NdArray ℚ := ⟨(1, 2, 2), fun c => if c = (0, 1, 0) then -1 else 1⟩

theorem shallowArrays : SurfaceArrays shallowPressure ⟨2, 2, fun _ _ => 1⟩ ⟨2, 2, fun _ _ => 1⟩ (some cornerMask) 2 2 1 where
  pressureDims := rfl
  slopeShape := ⟨rfl, rfl⟩
  maskDims := fun m hm => by
    cases hm
    rfl
  mannings_pos := fun _ _ _ _ _ _ => one_pos
  dry := by
    intro c _ hc
    change ¬ (if (0, c.2, c.1) = ((0, 1, 0) : ℤ × ℤ × ℤ) then (0 : ℚ) else 1) > 0 at hc
    show (if (0, c.2, c.1) = ((0, 1, 0) : ℤ × ℤ × ℤ) then (-1 : ℚ) else 1) ≤ 0
    split_ifs with h
    · decide
    · rw [if_neg h] at hc
      exact absurd one_pos hc

def shallowFluxes : PlaneArray ℚ × PlaneArray ℚ :=
  calculateOverlandFluxes ⟨fun x => x, fun x => x⟩ shallowPressure ⟨2, 2, fun _ _ => 1⟩ ⟨2, 2, fun _ _ => 0⟩
    ⟨2, 2, fun _ _ => 1⟩ 10 20 .overlandKinematic (1 / 100) (some cornerMask)

def shallowFlow : ℚ :=
  calculateOverlandFlow ⟨fun x => x, fun x => x⟩ shallowPressure ⟨2, 2, fun _ _ => 1⟩ ⟨2, 2, fun _ _ => 0⟩
    ⟨2, 2, fun _ _ => 1⟩ 10 20 .overlandKinematic (1 / 100) (some cornerMask)

/-- Water leaves to the west, from the column at the edge of the grid and from the one beside the hole. -/
theorem shallowFlow_eq : shallowFlow = 40 ∧ shallowFlow = massBalance (surfaceCells (some cornerMask) 2 2) shallowFluxes ∧
    shallowFlow = edgeOutflow (surfaceCells (some cornerMask) 2 2) shallowFluxes :=
  ⟨by decide +kernel, calculateOverlandFlow_eq ⟨rfl, rfl⟩ ⟨fun _ h => h, fun _ h => h⟩ shallowArrays _ (by decide +kernel)
    (by decide +kernel) .overlandKinematic (1 / 100)⟩

end ParFlow
