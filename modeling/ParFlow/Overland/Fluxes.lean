import ParFlow.Lib.PointLoop
import ParFlow.Comm.VectorCells
import ParFlow.Overland.FluxDefs

/-! The overland fluxes of the Python tools are those of the simulator. Copying slopes into inactive columns
gives the flux that the simulator writes there for a lower boundary. -/

set_option linter.unusedSectionVars false

namespace ParFlow

open PointLoop

variable {K : Type} [Field K] [LinearOrder K] [IsStrictOrderedRing K]

/-! ## One face -/

/-- Both powers take 0 to 0. -/
structure PowerFns.KeepsZero (powers : PowerFns K) : Prop where
  half : powers.half 0 = 0
  fiveThirds : powers.fiveThirds 0 = 0

theorem rPowerR_eq {pow : K → K} (h0 : pow 0 = 0) {x : K} (hx : 0 ≤ x) : rPowerR pow x = pow x := by
  unfold rPowerR
  split_ifs with h
  · rw [le_antisymm h hx, h0]
  · rfl

theorem pfmax_eq (a b : K) : pfmax a b = max a b := by
  unfold pfmax
  split_ifs with h
  · exact (max_eq_right h.le).symm
  · exact (max_eq_left (not_lt.mp h)).symm

section Face

variable {P : OverlandData K} (hpow : P.powers.KeepsZero) (heps : 0 < P.ovEpsilon)

include hpow

theorem sfMag_eq (sfX sfY : K) : P.sfMag sfX sfY = pySlope P.powers P.ovEpsilon sfX sfY := by
  unfold OverlandData.sfMag pySlope
  rw [rPowerR_eq hpow.half (add_nonneg (mul_self_nonneg _) (mul_self_nonneg _))]
  dsimp only
  split_ifs with h
  · exact (max_eq_left h.le).symm
  · exact (max_eq_right (not_lt.mp h)).symm

include heps

theorem kinematicFlux_eq {sf sfX sfY mann p d : K} (hp : 0 ≤ p) :
    pyFlux P.powers (pySlope P.powers P.ovEpsilon sfX sfY) mann sf p d =
      d * P.kinematicFlux sf (P.sfMag sfX sfY) mann p := by
  have hmag : 0 < pySlope P.powers P.ovEpsilon sfX sfY := heps.trans_le (le_max_left _ _)
  unfold pyFlux OverlandData.kinematicFlux
  rw [sfMag_eq hpow, abs_of_pos hmag, rPowerR_eq hpow.half hmag.le, rPowerR_eq hpow.fiveThirds hp, neg_div]
  ring

theorem kinematicFlux_zero {sfX sfY mann p : K} : P.kinematicFlux 0 (P.sfMag sfX sfY) mann p = 0 := by
  unfold OverlandData.kinematicFlux
  rw [zero_div, neg_zero, zero_mul]

/-- The flux through the face between a column and the next one. -/
theorem pyFlux_upwind {sf sfX sfY mann p pNext d : K} (hp : 0 ≤ p) (hnext : 0 ≤ pNext) :
    pyFlux P.powers (pySlope P.powers P.ovEpsilon sfX sfY) mann sf
        (max 0 (npSign sf * pNext) + max 0 (-npSign sf * p)) d =
      d * P.kinematicFlux sf (P.sfMag sfX sfY) mann (upstreamMean (-sf) 0 p pNext) := by
  rcases lt_trichotomy sf 0 with hneg | rfl | hpos
  · have hsign : npSign sf = -1 := by
      unfold npSign
      rw [if_neg (not_lt.mpr hneg.le), if_pos hneg]
    have hmean : upstreamMean (-sf) 0 p pNext = p := if_pos (by linarith)
    rw [hsign, hmean, neg_neg, one_mul, neg_one_mul, max_eq_left (neg_nonpos.mpr hnext), max_eq_right hp, zero_add]
    exact kinematicFlux_eq hpow heps hp
  · rw [kinematicFlux_zero hpow heps, mul_zero]
    unfold pyFlux
    rw [neg_zero, zero_div, zero_mul, zero_mul]
  · have hsign : npSign sf = 1 := if_pos hpos
    have hmean : upstreamMean (-sf) 0 p pNext = pNext := if_neg (by linarith)
    rw [hsign, hmean, one_mul, neg_one_mul, max_eq_right hnext, max_eq_left (neg_nonpos.mpr hp), add_zero]
    exact kinematicFlux_eq hpow heps hnext

/-- The flux through a lower boundary. -/
theorem pyFlux_lower {sf sfX sfY mann p d : K} (hp : 0 ≤ p) :
    pyFlux P.powers (pySlope P.powers P.ovEpsilon sfX sfY) mann sf (max 0 (npSign sf * p)) d =
      d * if 0 < sf then P.kinematicFlux sf (P.sfMag sfX sfY) mann p else 0 := by
  split_ifs with hpos
  · rw [show npSign sf = 1 from if_pos hpos, one_mul, max_eq_right hp]
    exact kinematicFlux_eq hpow heps hp
  · have hsign : npSign sf * p ≤ 0 := by
      unfold npSign
      rw [if_neg hpos]
      split_ifs
      · linarith
      · rw [zero_mul]
    rw [max_eq_left hsign, mul_zero]
    unfold pyFlux
    rw [hpow.fiveThirds, mul_zero, zero_mul]

end Face

/-! ## The loop over the columns -/

namespace OverlandData

variable {P : OverlandData K}

section Loop

variable {columns : List (ℤ × ℤ)} {io k0 k1 : ℤ × ℤ → ℤ} {sf mag mann press pressNext : ℤ × ℤ → K} {step : ℤ}

/-- The loop in one direction. -/
def kinematicLoop (P : OverlandData K) (columns : List (ℤ × ℤ)) (io k0 k1 : ℤ × ℤ → ℤ)
    (sf mag mann press pressNext : ℤ × ℤ → K) (step : ℤ) (q : ℤ → K) : ℤ → K :=
  columns.foldl (fun q c => P.kinematicFace (io c) step (k0 c) (k1 c) (sf c) (mag c) (mann c) (press c) (pressNext c) q) q

variable (hstep : 0 < step) (hk1 : ∀ c ∈ columns, 0 ≤ k1 c) (hinj : ∀ c ∈ columns, ∀ c' ∈ columns, io c = io c' → c = c')
  (hlow : ∀ c ∈ columns, ∀ c' ∈ columns, k0 c < 0 → io c - step ≠ io c') {c : ℤ × ℤ} (hc : c ∈ columns)

include hstep hk1 hinj hlow hc

theorem kinematicLoop_self (q : ℤ → K) :
    P.kinematicLoop columns io k0 k1 sf mag mann press pressNext step q (io c) =
      P.kinematicFlux (sf c) (mag c) (mann c) (upstreamMean (-(sf c)) 0 (press c) (pressNext c)) := by
  apply foldl_get_of_mem (fun q : ℤ → K => q (io c)) ?_ ?_ hc
  · intro q
    have hne : io c ≠ io c - step := by omega
    unfold kinematicFace
    rw [if_pos (hk1 c hc)]
    split_ifs
    · rw [Function.update_of_ne hne, Function.update_self]
    · rw [Function.update_self]
  · intro q c' hc' hne
    have hio : io c ≠ io c' := fun h => hne (hinj c hc c' hc' h).symm
    unfold kinematicFace
    rw [if_pos (hk1 c' hc')]
    split_ifs with hcond
    · rw [Function.update_of_ne (hlow c' hc' c hc hcond.1).symm, Function.update_of_ne hio]
    · rw [Function.update_of_ne hio]

theorem kinematicLoop_low (hk0 : k0 c < 0) (q : ℤ → K) :
    P.kinematicLoop columns io k0 k1 sf mag mann press pressNext step q (io c - step) =
      if 0 < sf c then P.kinematicFlux (sf c) (mag c) (mann c) (press c) else q (io c - step) := by
  have hother : ∀ q : ℤ → K, ∀ c' ∈ columns, c' ≠ c →
      P.kinematicFace (io c') step (k0 c') (k1 c') (sf c') (mag c') (mann c') (press c') (pressNext c') q (io c - step) =
        q (io c - step) := by
    intro q c' hc' hne
    have hio : io c - step ≠ io c' := hlow c hc c' hc' hk0
    have hio' : io c - step ≠ io c' - step := fun h => hne (hinj c hc c' hc' (by omega)).symm
    unfold kinematicFace
    rw [if_pos (hk1 c' hc')]
    split_ifs
    · rw [Function.update_of_ne hio', Function.update_of_ne hio]
    · rw [Function.update_of_ne hio]
  have hne : io c - step ≠ io c := by omega
  split_ifs with hpos
  · apply foldl_get_of_mem (fun q : ℤ → K => q (io c - step)) ?_ (fun q c' hc' h => hother q c' hc' h) hc
    intro q
    unfold kinematicFace
    rw [if_pos ⟨hk0, hk1 c hc, hpos⟩, Function.update_self]
  · apply foldl_get_of_keep (fun q : ℤ → K => q (io c - step))
    intro q c' hc'
    by_cases h : c' = c
    · subst h
      unfold kinematicFace
      rw [if_neg (fun hcond => hpos hcond.2.2), if_pos (hk1 c' hc), Function.update_of_ne hne]
    · exact hother q c' hc' h

end Loop

/-! ## Indices -/

theorem subvectorEltIndex_x (ds : Subgrid) (i j k d : ℤ) :
    subvectorEltIndex ds i j k + d = subvectorEltIndex ds (i + d) j k := by
  unfold subvectorEltIndex
  ring

theorem subvectorEltIndex_y (ds : Subgrid) (i j k d : ℤ) :
    subvectorEltIndex ds i j k + d * ds.nx = subvectorEltIndex ds i (j + d) k := by
  unfold subvectorEltIndex
  ring

/-- The data space of the slopes and of the top indices. -/
def planeSpace (nx ny : ℤ) : Subgrid := ghostSpace (newSubgrid 0 0 0 nx ny 1 0 0 0 0) 1

theorem planeIndex_inj {nx ny : ℤ} {c c' : ℤ × ℤ} (hc : (-1 ≤ c.1 ∧ c.1 ≤ nx) ∧ -1 ≤ c.2 ∧ c.2 ≤ ny)
    (hc' : (-1 ≤ c'.1 ∧ c'.1 ≤ nx) ∧ -1 ≤ c'.2 ∧ c'.2 ≤ ny)
    (h : subvectorEltIndex (planeSpace nx ny) c.1 c.2 0 = subvectorEltIndex (planeSpace nx ny) c'.1 c'.2 0) : c = c' := by
  have hmem : ∀ u : ℤ × ℤ, (-1 ≤ u.1 ∧ u.1 ≤ nx) ∧ -1 ≤ u.2 ∧ u.2 ≤ ny → ((u.1, u.2, 0) : Cell) ∈ (planeSpace nx ny).cells := by
    intro u hu
    rw [Subregion.mem_cells_iff]
    simp only [planeSpace, ghostSpace, newSubgrid]
    omega
  have heq := cellIndex_inj (c := (c.1, c.2, 0)) (d := (c'.1, c'.2, 0)) (hmem c hc) (hmem c' hc') h
  exact Prod.ext (congrArg (·.1) heq) (congrArg (·.2.1) heq)

end OverlandData

/-! ## One surface for both programs -/

/-- The columns whose surface cell is in the mask. -/
def ActiveColumn (mask : NdArray K) (c : ℤ × ℤ) : Prop :=
  ((0 ≤ c.1 ∧ c.1 < mask.dims.2.2) ∧ 0 ≤ c.2 ∧ c.2 < mask.dims.2.1) ∧ 0 < mask.get (mask.dims.1 - 1, c.2, c.1)

/-- The arrays of the Python tools hold the values of the simulator's vectors on a domain that one subgrid
holds; every active column has its top in the uppermost layer, and no pressure is positive outside the active
columns. -/
structure SameSurface (P : OverlandData K) (mask pressure : NdArray K) (slopex slopey mannings : PlaneArray K)
    (nx ny nz : ℤ) : Prop where
  layers : 0 < nz
  maskDims : mask.dims = (nz, ny, nx)
  pressureDims : pressure.dims = (nz, ny, nx)
  slopeSpace : P.slopeX.dataSpace = OverlandData.planeSpace nx ny
  topSpace : P.top.dataSpace = OverlandData.planeSpace nx ny
  slopeX : ∀ i j, 0 ≤ i → i < nx → 0 ≤ j → j < ny →
    P.slopeX.data (subvectorEltIndex P.slopeX.dataSpace i j 0) = slopex.get j i
  slopeY : ∀ i j, 0 ≤ i → i < nx → 0 ≤ j → j < ny →
    P.slopeY.data (subvectorEltIndex P.slopeX.dataSpace i j 0) = slopey.get j i
  mannings : ∀ i j, 0 ≤ i → i < nx → 0 ≤ j → j < ny →
    P.mannings.data (subvectorEltIndex P.slopeX.dataSpace i j 0) = mannings.get j i
  top_active : ∀ c, ActiveColumn mask c → P.top.data (subvectorEltIndex P.top.dataSpace c.1 c.2 0) = nz - 1
  top_inactive : ∀ c, -1 ≤ c.1 → c.1 ≤ nx → -1 ≤ c.2 → c.2 ≤ ny → ¬ ActiveColumn mask c →
    P.top.data (subvectorEltIndex P.top.dataSpace c.1 c.2 0) = -1
  pressure : ∀ i j k, 0 ≤ i → i < nx → 0 ≤ j → j < ny → 0 ≤ k → k < nz →
    P.pressure.data (subvectorEltIndex P.pressure.dataSpace i j k) = pressure.get (k, j, i)
  outside : ∀ c k, -1 ≤ c.1 → c.1 ≤ nx → -1 ≤ c.2 → c.2 ≤ ny → ¬ ActiveColumn mask c → 0 ≤ k → k < nz →
    P.pressure.data (subvectorEltIndex P.pressure.dataSpace c.1 c.2 k) ≤ 0

/-- The depth of water on a column: the clipped pressure of its top cell, 0 beyond the domain. -/
def topDepth (pressure : NdArray K) (c : ℤ × ℤ) : K :=
  if (0 ≤ c.1 ∧ c.1 < pressure.dims.2.2) ∧ 0 ≤ c.2 ∧ c.2 < pressure.dims.2.1 then
    max (pressure.get (pressure.dims.1 - 1, c.2, c.1)) 0
  else
    0

theorem topDepth_nonneg (pressure : NdArray K) (c : ℤ × ℤ) : 0 ≤ topDepth pressure c := by
  unfold topDepth
  split_ifs
  · exact le_max_right _ _
  · exact le_rfl

namespace SameSurface

variable {P : OverlandData K} {mask pressure : NdArray K} {slopex slopey mannings : PlaneArray K} {nx ny nz : ℤ}
  {c : ℤ × ℤ}

/-- The columns of the domain and of the ghost layer around it. -/
def WithGhost (nx ny : ℤ) (c : ℤ × ℤ) : Prop := (-1 ≤ c.1 ∧ c.1 ≤ nx) ∧ -1 ≤ c.2 ∧ c.2 ≤ ny

section

variable (hS : SameSurface P mask pressure slopex slopey mannings nx ny nz)

include hS

theorem inDomain (hc : ActiveColumn mask c) : (0 ≤ c.1 ∧ c.1 < nx) ∧ 0 ≤ c.2 ∧ c.2 < ny := by
  have h := hc.1
  rw [hS.maskDims] at h
  exact h

theorem topDepth_inactive (hg : WithGhost nx ny c) (hc : ¬ ActiveColumn mask c) : topDepth pressure c = 0 := by
  have hlayers := hS.layers
  unfold topDepth
  rw [hS.pressureDims]
  split_ifs with h
  · rw [← hS.pressure c.1 c.2 (nz - 1) h.1.1 h.1.2 h.2.1 h.2.2 (by omega) (by omega)]
    exact max_eq_right (hS.outside c (nz - 1) hg.1.1 hg.1.2 hg.2.1 hg.2.2 hc (by omega) (by omega))
  · rfl

theorem pondDepth_eq (hg : WithGhost nx ny c) :
    P.pondDepth c.1 c.2 (max (P.top.data (subvectorEltIndex P.top.dataSpace c.1 c.2 0)) 0) = topDepth pressure c := by
  have hlayers := hS.layers
  unfold OverlandData.pondDepth
  rw [pfmax_eq]
  by_cases hc : ActiveColumn mask c
  · obtain ⟨⟨hi, hi'⟩, hj, hj'⟩ := hS.inDomain hc
    rw [hS.top_active c hc, max_eq_left (by omega : (0 : ℤ) ≤ nz - 1), hS.pressure c.1 c.2 (nz - 1) hi hi' hj hj' (by omega) (by omega)]
    unfold topDepth
    rw [hS.pressureDims, if_pos ⟨⟨hi, hi'⟩, hj, hj'⟩]
  · rw [hS.top_inactive c hg.1.1 hg.1.2 hg.2.1 hg.2.2 hc, hS.topDepth_inactive hg hc]
    exact max_eq_right (hS.outside c 0 hg.1.1 hg.1.2 hg.2.1 hg.2.2 hc le_rfl hlayers)

theorem pondDepth_active (hc : ActiveColumn mask c) :
    P.pondDepth c.1 c.2 (P.top.data (subvectorEltIndex P.top.dataSpace c.1 c.2 0)) = topDepth pressure c := by
  have hlayers := hS.layers
  obtain ⟨⟨hi, hi'⟩, hj, hj'⟩ := hS.inDomain hc
  rw [← hS.pondDepth_eq (c := c) ⟨⟨by omega, by omega⟩, by omega, by omega⟩, hS.top_active c hc, max_eq_left (by omega : (0 : ℤ) ≤ nz - 1)]

theorem top_nonneg_iff (hg : WithGhost nx ny c) :
    0 ≤ P.top.data (subvectorEltIndex P.top.dataSpace c.1 c.2 0) ↔ ActiveColumn mask c := by
  have hlayers := hS.layers
  constructor
  · intro h
    by_contra hc
    rw [hS.top_inactive c hg.1.1 hg.1.2 hg.2.1 hg.2.2 hc] at h
    omega
  · intro hc
    rw [hS.top_active c hc]
    omega

end

/-! ## The kinematic method in the simulator -/

/-- The index of a column. -/
def io (P : OverlandData K) (c : ℤ × ℤ) : ℤ := subvectorEltIndex P.slopeX.dataSpace c.1 c.2 0

/-- The flux that a column gives its next one along an axis. -/
def columnFlux (P : OverlandData K) (pressure : NdArray K) (slope : Subvector K) (e : ℤ × ℤ) (c : ℤ × ℤ) : K :=
  P.kinematicFlux (slope.data (io P c)) (P.sfMag (P.slopeX.data (io P c)) (P.slopeY.data (io P c))) (P.mannings.data (io P c))
    (upstreamMean (-(slope.data (io P c))) 0 (topDepth pressure c) (topDepth pressure (c + e)))

/-- The flux through a lower boundary of a column. -/
def boundaryFlux (P : OverlandData K) (pressure : NdArray K) (slope : Subvector K) (c : ℤ × ℤ) : K :=
  if 0 < slope.data (io P c) then
    P.kinematicFlux (slope.data (io P c)) (P.sfMag (P.slopeX.data (io P c)) (P.slopeY.data (io P c)))
      (P.mannings.data (io P c)) (topDepth pressure c)
  else
    0

section Kinematic

variable (hS : SameSurface P mask pressure slopex slopey mannings nx ny nz) {columns : List (ℤ × ℤ)}
  (hcols : ∀ c, c ∈ columns ↔ ActiveColumn mask c) {q : (ℤ → K) × (ℤ → K)} (hc : ActiveColumn mask c)

include hS

theorem io_inj {c c' : ℤ × ℤ} (hc : WithGhost nx ny c) (hc' : WithGhost nx ny c') (h : io P c = io P c') : c = c' := by
  unfold io at h
  rw [hS.slopeSpace] at h
  exact OverlandData.planeIndex_inj hc hc' h

theorem withGhost_of_active (hc : ActiveColumn mask c) : WithGhost nx ny c := by
  obtain ⟨⟨hi, hi'⟩, hj, hj'⟩ := hS.inDomain hc
  exact ⟨⟨by omega, by omega⟩, by omega, by omega⟩

theorem neighbour_withGhost (hc : ActiveColumn mask c) : WithGhost nx ny (c + (1, 0)) ∧ WithGhost nx ny (c + (0, 1)) ∧
    WithGhost nx ny (c - (1, 0)) ∧ WithGhost nx ny (c - (0, 1)) := by
  obtain ⟨⟨hi, hi'⟩, hj, hj'⟩ := hS.inDomain hc
  simp only [WithGhost, Prod.fst_add, Prod.snd_add, Prod.fst_sub, Prod.snd_sub]
  omega

include hcols hc

/-- The loop of one direction over the active columns. -/
theorem kinematicLoop_active (slope : Subvector K) {e : ℤ × ℤ} {step : ℤ} (hstep : 0 < step)
    (hidx : ∀ c, io P c - step = io P (c - e)) (hghost : ∀ c, ActiveColumn mask c → WithGhost nx ny (c - e)) (q : ℤ → K) :
    let loop := P.kinematicLoop columns (io P) (fun c => P.top.data (subvectorEltIndex P.top.dataSpace (c - e).1 (c - e).2 0))
      (fun c => P.top.data (subvectorEltIndex P.top.dataSpace c.1 c.2 0)) (fun c => slope.data (io P c))
      (fun c => P.sfMag (P.slopeX.data (io P c)) (P.slopeY.data (io P c))) (fun c => P.mannings.data (io P c))
      (topDepth pressure) (fun c => topDepth pressure (c + e)) step q
    loop (io P c) = columnFlux P pressure slope e c ∧
      (¬ ActiveColumn mask (c - e) → q (io P (c - e)) = 0 → loop (io P (c - e)) = boundaryFlux P pressure slope c) := by
  intro loop
  have hk1 : ∀ c ∈ columns, 0 ≤ P.top.data (subvectorEltIndex P.top.dataSpace c.1 c.2 0) := fun c hc =>
    (hS.top_nonneg_iff (hS.withGhost_of_active ((hcols c).mp hc))).mpr ((hcols c).mp hc)
  have hinj : ∀ c ∈ columns, ∀ c' ∈ columns, io P c = io P c' → c = c' := fun c hc c' hc' h =>
    hS.io_inj (hS.withGhost_of_active ((hcols c).mp hc)) (hS.withGhost_of_active ((hcols c').mp hc')) h
  -- the column before an active one is inactive, or the fix does not write into it
  have hlow : ∀ c ∈ columns, ∀ c' ∈ columns,
      P.top.data (subvectorEltIndex P.top.dataSpace (c - e).1 (c - e).2 0) < 0 → io P c - step ≠ io P c' := by
    intro c hc c' hc' htop h
    rw [hidx] at h
    have hg := hghost c ((hcols c).mp hc)
    have heq := hS.io_inj hg (hS.withGhost_of_active ((hcols c').mp hc')) h
    rw [heq] at htop
    exact absurd (hk1 c' hc') (not_le.mpr htop)
  have hmem := (hcols c).mpr hc
  constructor
  · exact OverlandData.kinematicLoop_self hstep hk1 hinj hlow hmem q
  · intro hinactive hq
    have htop : P.top.data (subvectorEltIndex P.top.dataSpace (c - e).1 (c - e).2 0) < 0 := by
      rw [← not_le, hS.top_nonneg_iff (hghost c hc)]
      exact hinactive
    have hfix : loop (io P c - step) = if 0 < slope.data (io P c) then
        P.kinematicFlux (slope.data (io P c)) (P.sfMag (P.slopeX.data (io P c)) (P.slopeY.data (io P c)))
          (P.mannings.data (io P c)) (topDepth pressure c) else q (io P c - step) :=
      OverlandData.kinematicLoop_low hstep hk1 hinj hlow hmem htop q
    rw [hidx, hq] at hfix
    exact hfix

omit hc in
theorem kinematic_x_eq (q : (ℤ → K) × (ℤ → K)) : (columns.foldl P.kinematicColumn q).1 =
    P.kinematicLoop columns (io P)
      (fun c => P.top.data (subvectorEltIndex P.top.dataSpace (c - (1, 0)).1 (c - (1, 0)).2 0))
      (fun c => P.top.data (subvectorEltIndex P.top.dataSpace c.1 c.2 0)) (fun c => P.slopeX.data (io P c))
      (fun c => P.sfMag (P.slopeX.data (io P c)) (P.slopeY.data (io P c))) (fun c => P.mannings.data (io P c))
      (topDepth pressure) (fun c => topDepth pressure (c + (1, 0))) 1 q.1 := by
  have hfirst : columns.foldl (fun q c => (P.kinematicColumn (q, fun _ => 0) c).1) q.1 =
      (columns.foldl P.kinematicColumn q).1 := List.foldl_hom Prod.fst fun _ _ => rfl
  rw [← hfirst]
  apply List.foldl_ext
  intro q c hc
  have hactive := (hcols c).mp hc
  have hbefore : subvectorEltIndex P.top.dataSpace c.1 c.2 0 - 1 =
      subvectorEltIndex P.top.dataSpace (c - (1, 0)).1 (c - (1, 0)).2 0 := by
    rw [Prod.fst_sub, Prod.snd_sub, sub_zero]
    exact OverlandData.subvectorEltIndex_x P.top.dataSpace c.1 c.2 0 (-1)
  have hnext : P.pondDepth (c.1 + 1) c.2 (max (P.top.data (subvectorEltIndex P.top.dataSpace c.1 c.2 0 + 1)) 0) =
      topDepth pressure (c + (1, 0)) := by
    rw [OverlandData.subvectorEltIndex_x, ← hS.pondDepth_eq (hS.neighbour_withGhost hactive).1, Prod.fst_add, Prod.snd_add, add_zero]
  show P.kinematicFace _ _ _ _ _ _ _ _ _ q = _
  dsimp only
  rw [hbefore, hnext, hS.pondDepth_active hactive]
  rfl

omit hc in
theorem kinematic_y_eq (q : (ℤ → K) × (ℤ → K)) : (columns.foldl P.kinematicColumn q).2 =
    P.kinematicLoop columns (io P)
      (fun c => P.top.data (subvectorEltIndex P.top.dataSpace (c - (0, 1)).1 (c - (0, 1)).2 0))
      (fun c => P.top.data (subvectorEltIndex P.top.dataSpace c.1 c.2 0)) (fun c => P.slopeY.data (io P c))
      (fun c => P.sfMag (P.slopeX.data (io P c)) (P.slopeY.data (io P c))) (fun c => P.mannings.data (io P c))
      (topDepth pressure) (fun c => topDepth pressure (c + (0, 1))) P.top.dataSpace.nx q.2 := by
  have hsecond : columns.foldl (fun q c => (P.kinematicColumn (fun _ => 0, q) c).2) q.2 =
      (columns.foldl P.kinematicColumn q).2 := List.foldl_hom Prod.snd fun _ _ => rfl
  rw [← hsecond]
  apply List.foldl_ext
  intro q c hc
  have hactive := (hcols c).mp hc
  have hbefore : subvectorEltIndex P.top.dataSpace c.1 c.2 0 - P.top.dataSpace.nx =
      subvectorEltIndex P.top.dataSpace (c - (0, 1)).1 (c - (0, 1)).2 0 := by
    have h := OverlandData.subvectorEltIndex_y P.top.dataSpace c.1 c.2 0 (-1)
    rw [neg_one_mul, ← sub_eq_add_neg] at h
    rw [h, Prod.fst_sub, Prod.snd_sub, sub_zero, sub_eq_add_neg]
  have hnext : P.pondDepth c.1 (c.2 + 1)
      (max (P.top.data (subvectorEltIndex P.top.dataSpace c.1 c.2 0 + P.top.dataSpace.nx)) 0) =
      topDepth pressure (c + (0, 1)) := by
    have h := OverlandData.subvectorEltIndex_y P.top.dataSpace c.1 c.2 0 1
    rw [one_mul] at h
    rw [h, ← hS.pondDepth_eq (hS.neighbour_withGhost hactive).2.1, Prod.fst_add, Prod.snd_add, add_zero]
  show P.kinematicFace _ _ _ _ _ _ _ _ _ q = _
  dsimp only
  rw [hbefore, hnext, hS.pondDepth_active hactive]
  rfl

/-- The flux through the face before a column. -/
theorem kinematic_before (slope : Subvector K) {e : ℤ × ℤ} {step : ℤ} (hstep : 0 < step)
    (hidx : ∀ c, io P c - step = io P (c - e)) (hghost : ∀ c, ActiveColumn mask c → WithGhost nx ny (c - e))
    {q loop : ℤ → K} (hq : ∀ a, q a = 0)
    (hloop : loop = P.kinematicLoop columns (io P)
      (fun c => P.top.data (subvectorEltIndex P.top.dataSpace (c - e).1 (c - e).2 0))
      (fun c => P.top.data (subvectorEltIndex P.top.dataSpace c.1 c.2 0)) (fun c => slope.data (io P c))
      (fun c => P.sfMag (P.slopeX.data (io P c)) (P.slopeY.data (io P c))) (fun c => P.mannings.data (io P c))
      (topDepth pressure) (fun c => topDepth pressure (c + e)) step q) :
    loop (io P c) = columnFlux P pressure slope e c ∧
      (ActiveColumn mask (c - e) → loop (io P c - step) = columnFlux P pressure slope e (c - e)) ∧
      (¬ ActiveColumn mask (c - e) → loop (io P c - step) = boundaryFlux P pressure slope c) := by
  obtain ⟨hself, hlow⟩ := hS.kinematicLoop_active hcols hc slope hstep hidx hghost q
  rw [hloop, hidx]
  refine ⟨hself, ?_, fun hinactive => hlow hinactive (hq _)⟩
  intro hactive
  exact (hS.kinematicLoop_active hcols hactive slope hstep hidx hghost q).1

/-- The four fluxes of an active column. -/
theorem kinematic_faces (hq : (∀ a, q.1 a = 0) ∧ ∀ a, q.2 a = 0) (faces : OverlandFaces K) :
    (P.overlandFlowEvalKin columns q faces).ke (io P c) = columnFlux P pressure P.slopeX (1, 0) c ∧
      ((ActiveColumn mask (c - (1, 0)) → (P.overlandFlowEvalKin columns q faces).kw (io P c) =
          columnFlux P pressure P.slopeX (1, 0) (c - (1, 0))) ∧
        (¬ ActiveColumn mask (c - (1, 0)) → (P.overlandFlowEvalKin columns q faces).kw (io P c) =
          boundaryFlux P pressure P.slopeX c)) ∧
      (P.overlandFlowEvalKin columns q faces).kn (io P c) = columnFlux P pressure P.slopeY (0, 1) c ∧
      (ActiveColumn mask (c - (0, 1)) → (P.overlandFlowEvalKin columns q faces).ks (io P c) =
          columnFlux P pressure P.slopeY (0, 1) (c - (0, 1))) ∧
        (¬ ActiveColumn mask (c - (0, 1)) → (P.overlandFlowEvalKin columns q faces).ks (io P c) =
          boundaryFlux P pressure P.slopeY c) := by
  have hmem := (hcols c).mpr hc
  have hsame : P.slopeX.dataSpace.nx = P.top.dataSpace.nx := by rw [hS.slopeSpace, hS.topSpace]
  have hstepY : 0 < P.top.dataSpace.nx := by
    have hdom := hS.inDomain hc
    rw [hS.topSpace]
    simp only [OverlandData.planeSpace, ghostSpace, newSubgrid]
    omega
  have hidxX : ∀ c, io P c - 1 = io P (c - (1, 0)) := by
    intro c
    unfold io
    rw [Prod.fst_sub, Prod.snd_sub, sub_zero]
    exact OverlandData.subvectorEltIndex_x P.slopeX.dataSpace c.1 c.2 0 (-1)
  have hidxY : ∀ c, io P c - P.top.dataSpace.nx = io P (c - (0, 1)) := by
    intro c
    unfold io
    have h := OverlandData.subvectorEltIndex_y P.slopeX.dataSpace c.1 c.2 0 (-1)
    rw [neg_one_mul, ← sub_eq_add_neg, hsame] at h
    rw [h, Prod.fst_sub, Prod.snd_sub, sub_zero, sub_eq_add_neg]
  obtain ⟨hke, hkw⟩ := hS.kinematic_before hcols hc P.slopeX one_pos hidxX (fun c hc => (hS.neighbour_withGhost hc).2.2.1)
    hq.1 (hS.kinematic_x_eq hcols q)
  obtain ⟨hkn, hks⟩ := hS.kinematic_before hcols hc P.slopeY hstepY hidxY (fun c hc => (hS.neighbour_withGhost hc).2.2.2)
    hq.2 (hS.kinematic_y_eq hcols q)
  -- the second loop reads the fluxes into the entry of the column, and no other column writes there
  have hread : ∀ get : OverlandFaces K → K, ∀ x : K,
      (∀ F, get (P.kinematicFaces (columns.foldl P.kinematicColumn q) F c) = x) →
      (∀ F, ∀ c' ∈ columns, c' ≠ c → get (P.kinematicFaces (columns.foldl P.kinematicColumn q) F c') = get F) →
      get (P.overlandFlowEvalKin columns q faces) = x := fun get x hset hkeep => foldl_get_of_mem get hset hkeep hmem faces
  have hne : ∀ c' ∈ columns, c' ≠ c → io P c ≠ io P c' := fun c' hc' h heq =>
    h (hS.io_inj (hS.withGhost_of_active hc) (hS.withGhost_of_active ((hcols c').mp hc')) heq).symm
  have hke' := hread (fun F => F.ke (io P c)) _ (fun F => Function.update_self _ _ _)
    fun F c' hc' h => Function.update_of_ne (hne c' hc' h) _ _
  have hkw' := hread (fun F => F.kw (io P c)) _ (fun F => Function.update_self _ _ _)
    fun F c' hc' h => Function.update_of_ne (hne c' hc' h) _ _
  have hkn' := hread (fun F => F.kn (io P c)) _ (fun F => Function.update_self _ _ _)
    fun F c' hc' h => Function.update_of_ne (hne c' hc' h) _ _
  have hks' := hread (fun F => F.ks (io P c)) _ (fun F => Function.update_self _ _ _)
    fun F c' hc' h => Function.update_of_ne (hne c' hc' h) _ _
  rw [hke', hkw', hkn', hks']
  exact ⟨hke, hkw, hkn, hks⟩

end Kinematic

/-! ## The kinematic method in Python -/

/-- The mask of the uppermost layer with entries 0 and 1. -/
def surfaceMask (mask : NdArray K) : PlaneArray ℤ := PlaneArray.ofLastLayer (mask.map fun m => if m > 0 then 1 else 0)

def clippedTop (pressure : NdArray K) : PlaneArray K := (PlaneArray.ofLastLayer pressure).map fun p => if p < 0 then 0 else p

theorem clippedTop_eq (hdom : (0 ≤ c.1 ∧ c.1 < pressure.dims.2.2) ∧ 0 ≤ c.2 ∧ c.2 < pressure.dims.2.1) :
    (clippedTop pressure).get c.2 c.1 = topDepth pressure c := by
  unfold topDepth
  rw [if_pos hdom]
  show (if pressure.get (pressure.dims.1 - 1, c.2, c.1) < 0 then 0 else pressure.get (pressure.dims.1 - 1, c.2, c.1)) = _
  split_ifs with h
  · exact (max_eq_right h.le).symm
  · exact (max_eq_left (not_lt.mp h)).symm

theorem paddedX_eq (hdom : (0 ≤ c.1 ∧ c.1 < pressure.dims.2.2) ∧ 0 ≤ c.2 ∧ c.2 < pressure.dims.2.1) :
    (clippedTop pressure).tailColumns.padRight.get c.2 c.1 = topDepth pressure (c + (1, 0)) := by
  show (if c.1 < pressure.dims.2.2 - 1 then (clippedTop pressure).get c.2 (c.1 + 1) else 0) = _
  split_ifs with h
  · have hnext : (clippedTop pressure).get (c + (1, 0)).2 (c + (1, 0)).1 = _ :=
      clippedTop_eq (by simp only [Prod.fst_add, Prod.snd_add]; omega)
    rwa [Prod.fst_add, Prod.snd_add, add_zero] at hnext
  · exact (if_neg (by simp only [Prod.fst_add, Prod.snd_add]; omega)).symm

theorem paddedY_eq (hdom : (0 ≤ c.1 ∧ c.1 < pressure.dims.2.2) ∧ 0 ≤ c.2 ∧ c.2 < pressure.dims.2.1) :
    (clippedTop pressure).tailRows.padBottom.get c.2 c.1 = topDepth pressure (c + (0, 1)) := by
  show (if c.2 < pressure.dims.2.1 - 1 then (clippedTop pressure).get (c.2 + 1) c.1 else 0) = _
  split_ifs with h
  · have hnext : (clippedTop pressure).get (c + (0, 1)).2 (c + (0, 1)).1 = _ :=
      clippedTop_eq (by simp only [Prod.fst_add, Prod.snd_add]; omega)
    rwa [Prod.fst_add, Prod.snd_add, add_zero] at hnext
  · exact (if_neg (by simp only [Prod.fst_add, Prod.snd_add]; omega)).symm

section Python

variable (hS : SameSurface P mask pressure slopex slopey mannings nx ny nz) (hc : ActiveColumn mask c)

include hS

theorem surfaceMask_get (hdom : (0 ≤ c.1 ∧ c.1 < nx) ∧ 0 ≤ c.2 ∧ c.2 < ny) :
    (ActiveColumn mask c → (surfaceMask mask).get c.2 c.1 = 1) ∧ (¬ ActiveColumn mask c → (surfaceMask mask).get c.2 c.1 = 0) := by
  have hget : (surfaceMask mask).get c.2 c.1 = if mask.get (mask.dims.1 - 1, c.2, c.1) > 0 then 1 else 0 := rfl
  rw [hget]
  constructor
  · exact fun h => if_pos h.2
  · intro h
    apply if_neg
    intro hpos
    apply h
    refine ⟨?_, hpos⟩
    rw [hS.maskDims]
    exact hdom

theorem clippedTop_get (hdom : (0 ≤ c.1 ∧ c.1 < nx) ∧ 0 ≤ c.2 ∧ c.2 < ny) :
    (clippedTop pressure).get c.2 c.1 = topDepth pressure c := clippedTop_eq (by rwa [hS.pressureDims])

theorem paddedX_get (hdom : (0 ≤ c.1 ∧ c.1 < nx) ∧ 0 ≤ c.2 ∧ c.2 < ny) :
    (clippedTop pressure).tailColumns.padRight.get c.2 c.1 = topDepth pressure (c + (1, 0)) :=
  paddedX_eq (by rwa [hS.pressureDims])

theorem paddedY_get (hdom : (0 ≤ c.1 ∧ c.1 < nx) ∧ 0 ≤ c.2 ∧ c.2 < ny) :
    (clippedTop pressure).tailRows.padBottom.get c.2 c.1 = topDepth pressure (c + (0, 1)) :=
  paddedY_eq (by rwa [hS.pressureDims])

include hc

/-- An active column keeps its values when columns are copied along x. -/
theorem copyFromRight_active (a : PlaneArray K) :
    (a.copyFromRight fun j i => (surfaceMask mask).diffColumns.get j i = 1).get c.2 c.1 = a.get c.2 c.1 := by
  have hdom := hS.inDomain hc
  apply if_neg
  show ¬ (if c.1 + 1 < mask.dims.2.2 then (surfaceMask mask).get c.2 (c.1 + 1) else 0) - (surfaceMask mask).get c.2 c.1 = 1
  rw [(hS.surfaceMask_get hdom).1 hc]
  have hbound : (surfaceMask mask).get c.2 (c.1 + 1) ≤ 1 := by
    show (if mask.get (mask.dims.1 - 1, c.2, c.1 + 1) > 0 then (1 : ℤ) else 0) ≤ 1
    split_ifs
    · exact le_rfl
    · exact zero_le_one
  split_ifs <;> omega

/-- The inactive column before an active one gets its values. -/
theorem copyFromRight_before (a : PlaneArray K) (h0 : 0 ≤ c.1 - 1) (hbefore : ¬ ActiveColumn mask (c - (1, 0))) :
    (a.copyFromRight fun j i => (surfaceMask mask).diffColumns.get j i = 1).get c.2 (c.1 - 1) = a.get c.2 c.1 := by
  have hdom := hS.inDomain hc
  have hzero := (hS.surfaceMask_get (c := c - (1, 0)) (by simp only [Prod.fst_sub, Prod.snd_sub]; omega)).2 hbefore
  rw [Prod.fst_sub, Prod.snd_sub, sub_zero] at hzero
  have hcond : (if c.1 - 1 + 1 < mask.dims.2.2 then (surfaceMask mask).get c.2 (c.1 - 1 + 1) else 0) -
      (surfaceMask mask).get c.2 (c.1 - 1) = 1 := by
    rw [hzero, sub_add_cancel, hS.maskDims, if_pos hdom.1.2, (hS.surfaceMask_get hdom).1 hc]
    rfl
  show (if _ = 1 then a.get c.2 (c.1 - 1 + 1) else _) = _
  rw [sub_add_cancel]
  exact if_pos hcond

theorem copyFromBelow_active (a : PlaneArray K) :
    (a.copyFromBelow fun j i => (surfaceMask mask).diffRows.get j i = 1).get c.2 c.1 = a.get c.2 c.1 := by
  have hdom := hS.inDomain hc
  apply if_neg
  show ¬ (if c.2 + 1 < mask.dims.2.1 then (surfaceMask mask).get (c.2 + 1) c.1 else 0) - (surfaceMask mask).get c.2 c.1 = 1
  rw [(hS.surfaceMask_get hdom).1 hc]
  have hbound : (surfaceMask mask).get (c.2 + 1) c.1 ≤ 1 := by
    show (if mask.get (mask.dims.1 - 1, c.2 + 1, c.1) > 0 then (1 : ℤ) else 0) ≤ 1
    split_ifs
    · exact le_rfl
    · exact zero_le_one
  split_ifs <;> omega

theorem copyFromBelow_before (a : PlaneArray K) (h0 : 0 ≤ c.2 - 1) (hbefore : ¬ ActiveColumn mask (c - (0, 1))) :
    (a.copyFromBelow fun j i => (surfaceMask mask).diffRows.get j i = 1).get (c.2 - 1) c.1 = a.get c.2 c.1 := by
  have hdom := hS.inDomain hc
  have hzero := (hS.surfaceMask_get (c := c - (0, 1)) (by simp only [Prod.fst_sub, Prod.snd_sub]; omega)).2 hbefore
  rw [Prod.fst_sub, Prod.snd_sub, sub_zero] at hzero
  have hcond : (if c.2 - 1 + 1 < mask.dims.2.1 then (surfaceMask mask).get (c.2 - 1 + 1) c.1 else 0) -
      (surfaceMask mask).get (c.2 - 1) c.1 = 1 := by
    rw [hzero, sub_add_cancel, hS.maskDims, if_pos hdom.2.2, (hS.surfaceMask_get hdom).1 hc]
    rfl
  show (if _ = 1 then a.get (c.2 - 1 + 1) c.1 else _) = _
  rw [sub_add_cancel]
  exact if_pos hcond

/-- The slopes and the Manning coefficient of an active column. -/
theorem column_values : P.slopeX.data (io P c) = slopex.get c.2 c.1 ∧ P.slopeY.data (io P c) = slopey.get c.2 c.1 ∧
    P.mannings.data (io P c) = mannings.get c.2 c.1 := by
  obtain ⟨⟨hi, hi'⟩, hj, hj'⟩ := hS.inDomain hc
  exact ⟨hS.slopeX c.1 c.2 hi hi' hj hj', hS.slopeY c.1 c.2 hi hi' hj hj', hS.mannings c.1 c.2 hi hi' hj hj'⟩

end Python

section PythonKinematic

variable (hS : SameSurface P mask pressure slopex slopey mannings nx ny nz) (hpow : P.powers.KeepsZero)
  (heps : 0 < P.ovEpsilon) (hc : ActiveColumn mask c) (dx dy : K)

/-- `qx` or `qy` at one column. -/
def pyUpwind (powers : PowerFns K) (slope mann s p pNext d : K) : K :=
  pyFlux powers slope mann s (max 0 (npSign s * pNext) + max 0 (-npSign s * p)) d

include hS hpow heps hc

theorem pyUpwind_column (slope : Subvector K) (e : ℤ × ℤ) (d : K) :
    pyUpwind P.powers (pySlope P.powers P.ovEpsilon (slopex.get c.2 c.1) (slopey.get c.2 c.1)) (mannings.get c.2 c.1)
      (slope.data (io P c)) (topDepth pressure c) (topDepth pressure (c + e)) d = d * columnFlux P pressure slope e c := by
  obtain ⟨hx, hy, hm⟩ := hS.column_values hc
  unfold columnFlux
  rw [hx, hy, hm]
  exact pyFlux_upwind hpow heps (topDepth_nonneg _ _) (topDepth_nonneg _ _)

/-- The column before a lower boundary is dry, so that only the flux from the active one counts. -/
theorem pyUpwind_boundary (slope : Subvector K) (d : K) :
    pyUpwind P.powers (pySlope P.powers P.ovEpsilon (slopex.get c.2 c.1) (slopey.get c.2 c.1)) (mannings.get c.2 c.1)
      (slope.data (io P c)) 0 (topDepth pressure c) d = d * boundaryFlux P pressure slope c := by
  obtain ⟨hx, hy, hm⟩ := hS.column_values hc
  unfold boundaryFlux pyUpwind
  rw [hx, hy, hm, mul_zero, max_self, add_zero]
  exact pyFlux_lower hpow heps (topDepth_nonneg _ _)

theorem pyKinematic_boundary (slope : Subvector K) (d : K) :
    pyFlux P.powers (pySlope P.powers P.ovEpsilon (slopex.get c.2 c.1) (slopey.get c.2 c.1)) (mannings.get c.2 c.1)
      (slope.data (io P c)) (max 0 (npSign (slope.data (io P c)) * topDepth pressure c)) d =
      d * boundaryFlux P pressure slope c := by
  obtain ⟨hx, hy, hm⟩ := hS.column_values hc
  unfold boundaryFlux
  rw [hx, hy, hm]
  exact pyFlux_lower hpow heps (topDepth_nonneg _ _)

/-- The fluxes through the faces across x. -/
theorem pyKinematic_x :
    let q := (pyOverlandFlowKinematic P.powers (mask.map fun m => if m > 0 then 1 else 0) (clippedTop pressure) slopex slopey
      mannings dx dy P.ovEpsilon).1
    q.get c.2 (c.1 + 1) = dy * columnFlux P pressure P.slopeX (1, 0) c ∧
      (ActiveColumn mask (c - (1, 0)) → q.get c.2 c.1 = dy * columnFlux P pressure P.slopeX (1, 0) (c - (1, 0))) ∧
      (¬ ActiveColumn mask (c - (1, 0)) → q.get c.2 c.1 = dy * boundaryFlux P pressure P.slopeX c) := by
  intro q
  -- the entry of the array without the first column
  have hinner : ∀ j i, 1 ≤ i → q.get j i = pyUpwind P.powers
      (pySlope P.powers P.ovEpsilon ((slopex.copyFromRight fun j i => (surfaceMask mask).diffColumns.get j i = 1).get j (i - 1))
        ((slopey.copyFromRight fun j i => (surfaceMask mask).diffColumns.get j i = 1).get j (i - 1)))
      ((mannings.copyFromRight fun j i => (surfaceMask mask).diffColumns.get j i = 1).get j (i - 1))
      ((slopex.copyFromRight fun j i => (surfaceMask mask).diffColumns.get j i = 1).get j (i - 1))
      ((clippedTop pressure).get j (i - 1)) ((clippedTop pressure).tailColumns.padRight.get j (i - 1)) dy :=
    fun j i hi => if_neg (not_lt.mpr hi)
  have hactive : ∀ u, ActiveColumn mask u → q.get u.2 (u.1 + 1) = dy * columnFlux P pressure P.slopeX (1, 0) u := by
    intro u hu
    have hdom := hS.inDomain hu
    rw [hinner _ _ (by omega), add_sub_cancel_right, hS.copyFromRight_active hu, hS.copyFromRight_active hu,
      hS.copyFromRight_active hu, hS.clippedTop_get hdom, hS.paddedX_get hdom]
    have hvalue := hS.pyUpwind_column hpow heps hu P.slopeX (1, 0) dy
    rwa [(hS.column_values hu).1] at hvalue
  have hdom := hS.inDomain hc
  refine ⟨hactive c hc, ?_, ?_⟩
  · intro hbefore
    have h := hactive _ hbefore
    rwa [Prod.fst_sub, Prod.snd_sub, sub_zero, sub_add_cancel] at h
  · intro hbefore
    rcases lt_or_ge c.1 1 with hfirst | hlater
    · have hzero : c.1 = 0 := by omega
      have hedge : q.get c.2 c.1 = pyFlux P.powers
          (pySlope P.powers P.ovEpsilon ((slopex.copyFromRight fun j i => (surfaceMask mask).diffColumns.get j i = 1).get c.2 0)
            ((slopey.copyFromRight fun j i => (surfaceMask mask).diffColumns.get j i = 1).get c.2 0))
          ((mannings.copyFromRight fun j i => (surfaceMask mask).diffColumns.get j i = 1).get c.2 0)
          ((slopex.copyFromRight fun j i => (surfaceMask mask).diffColumns.get j i = 1).get c.2 0)
          (max 0 (npSign ((slopex.copyFromRight fun j i => (surfaceMask mask).diffColumns.get j i = 1).get c.2 0) *
            (clippedTop pressure).get c.2 0)) dy := if_pos hfirst
      rw [hedge, ← hzero, hS.copyFromRight_active hc, hS.copyFromRight_active hc, hS.copyFromRight_active hc,
        hS.clippedTop_get hdom]
      have hvalue := hS.pyKinematic_boundary hpow heps hc P.slopeX dy
      rwa [(hS.column_values hc).1] at hvalue
    · have hdry := hS.clippedTop_get (c := c - (1, 0)) (by simp only [Prod.fst_sub, Prod.snd_sub]; omega)
      rw [hS.topDepth_inactive (hS.neighbour_withGhost hc).2.2.1 hbefore, Prod.fst_sub, Prod.snd_sub, sub_zero] at hdry
      have hwet := hS.paddedX_get (c := c - (1, 0)) (by simp only [Prod.fst_sub, Prod.snd_sub]; omega)
      rw [sub_add_cancel, Prod.fst_sub, Prod.snd_sub, sub_zero] at hwet
      have h0 : 0 ≤ c.1 - 1 := by omega
      rw [hinner _ _ hlater, hS.copyFromRight_before hc _ h0 hbefore, hS.copyFromRight_before hc _ h0 hbefore,
        hS.copyFromRight_before hc _ h0 hbefore, hdry, hwet]
      have hvalue := hS.pyUpwind_boundary hpow heps hc P.slopeX dy
      rwa [(hS.column_values hc).1] at hvalue

/-- Both copies, along x and then along y. -/
def copiedTwice (mask : NdArray K) (a : PlaneArray K) : PlaneArray K :=
  (a.copyFromRight fun j i => (surfaceMask mask).diffColumns.get j i = 1).copyFromBelow fun j i =>
    (surfaceMask mask).diffRows.get j i = 1

omit hpow heps in
theorem copiedTwice_active (a : PlaneArray K) : (copiedTwice mask a).get c.2 c.1 = a.get c.2 c.1 :=
  (hS.copyFromBelow_active hc _).trans (hS.copyFromRight_active hc a)

omit hpow heps in
theorem copiedTwice_before (a : PlaneArray K) (h0 : 0 ≤ c.2 - 1) (hbefore : ¬ ActiveColumn mask (c - (0, 1))) :
    (copiedTwice mask a).get (c.2 - 1) c.1 = a.get c.2 c.1 :=
  (hS.copyFromBelow_before hc _ h0 hbefore).trans (hS.copyFromRight_active hc a)

/-- The fluxes through the faces across y. -/
theorem pyKinematic_y :
    let q := (pyOverlandFlowKinematic P.powers (mask.map fun m => if m > 0 then 1 else 0) (clippedTop pressure) slopex slopey
      mannings dx dy P.ovEpsilon).2
    q.get (c.2 + 1) c.1 = dx * columnFlux P pressure P.slopeY (0, 1) c ∧
      (ActiveColumn mask (c - (0, 1)) → q.get c.2 c.1 = dx * columnFlux P pressure P.slopeY (0, 1) (c - (0, 1))) ∧
      (¬ ActiveColumn mask (c - (0, 1)) → q.get c.2 c.1 = dx * boundaryFlux P pressure P.slopeY c) := by
  intro q
  have hinner : ∀ j i, 1 ≤ j → q.get j i = pyUpwind P.powers
      (pySlope P.powers P.ovEpsilon ((copiedTwice mask slopex).get (j - 1) i) ((copiedTwice mask slopey).get (j - 1) i))
      ((copiedTwice mask mannings).get (j - 1) i) ((copiedTwice mask slopey).get (j - 1) i)
      ((clippedTop pressure).get (j - 1) i) ((clippedTop pressure).tailRows.padBottom.get (j - 1) i) dx :=
    fun j i hj => if_neg (not_lt.mpr hj)
  have hactive : ∀ u, ActiveColumn mask u → q.get (u.2 + 1) u.1 = dx * columnFlux P pressure P.slopeY (0, 1) u := by
    intro u hu
    have hdom := hS.inDomain hu
    rw [hinner _ _ (by omega), add_sub_cancel_right, hS.copiedTwice_active hu, hS.copiedTwice_active hu,
      hS.copiedTwice_active hu, hS.clippedTop_get hdom, hS.paddedY_get hdom]
    have hvalue := hS.pyUpwind_column hpow heps hu P.slopeY (0, 1) dx
    rwa [(hS.column_values hu).2.1] at hvalue
  have hdom := hS.inDomain hc
  refine ⟨hactive c hc, ?_, ?_⟩
  · intro hbefore
    have h := hactive _ hbefore
    rwa [Prod.fst_sub, Prod.snd_sub, sub_zero, sub_add_cancel] at h
  · intro hbefore
    rcases lt_or_ge c.2 1 with hfirst | hlater
    · have hzero : c.2 = 0 := by omega
      have hedge : q.get c.2 c.1 = pyFlux P.powers
          (pySlope P.powers P.ovEpsilon ((copiedTwice mask slopex).get 0 c.1) ((copiedTwice mask slopey).get 0 c.1))
          ((copiedTwice mask mannings).get 0 c.1) ((copiedTwice mask slopey).get 0 c.1)
          (max 0 (npSign ((copiedTwice mask slopey).get 0 c.1) * (clippedTop pressure).get 0 c.1)) dx := if_pos hfirst
      rw [hedge, ← hzero, hS.copiedTwice_active hc, hS.copiedTwice_active hc, hS.copiedTwice_active hc,
        hS.clippedTop_get hdom]
      have hvalue := hS.pyKinematic_boundary hpow heps hc P.slopeY dx
      rwa [(hS.column_values hc).2.1] at hvalue
    · have hdry := hS.clippedTop_get (c := c - (0, 1)) (by simp only [Prod.fst_sub, Prod.snd_sub]; omega)
      rw [hS.topDepth_inactive (hS.neighbour_withGhost hc).2.2.2 hbefore, Prod.fst_sub, Prod.snd_sub, sub_zero] at hdry
      have hwet := hS.paddedY_get (c := c - (0, 1)) (by simp only [Prod.fst_sub, Prod.snd_sub]; omega)
      rw [sub_add_cancel, Prod.fst_sub, Prod.snd_sub, sub_zero] at hwet
      have h0 : 0 ≤ c.2 - 1 := by omega
      rw [hinner _ _ hlater, hS.copiedTwice_before hc _ h0 hbefore, hS.copiedTwice_before hc _ h0 hbefore,
        hS.copiedTwice_before hc _ h0 hbefore, hdry, hwet]
      have hvalue := hS.pyUpwind_boundary hpow heps hc P.slopeY dx
      rwa [(hS.column_values hc).2.1] at hvalue

end PythonKinematic

/-! ## The method of Manning flow -/

section Flow

variable (hS : SameSurface P mask pressure slopex slopey mannings nx ny nz) (hpow : P.powers.KeepsZero)

/-- The velocity that a column has along an axis. -/
def flowVelocity (P : OverlandData K) (pressure : NdArray K) (slope : PlaneArray K) (mannings : PlaneArray K) (c : ℤ × ℤ) : K :=
  -(npSign (slope.get c.2 c.1) * P.powers.half |slope.get c.2 c.1| / mannings.get c.2 c.1) *
    P.powers.fiveThirds (topDepth pressure c)

include hS hpow

open Classical in
theorem columnVelocity_eq (slope : Subvector K) (slopes : PlaneArray K)
    (hslope : ∀ c, ActiveColumn mask c → slope.data (io P c) = slopes.get c.2 c.1) (hg : WithGhost nx ny c) :
    P.columnVelocity slope (io P c) (subvectorEltIndex P.top.dataSpace c.1 c.2 0) c.1 c.2 =
      if ActiveColumn mask c then flowVelocity P pressure slopes mannings c else 0 := by
  unfold OverlandData.columnVelocity
  dsimp only
  by_cases hc : ActiveColumn mask c
  · rw [if_pos hc, if_pos ((hS.top_nonneg_iff hg).mpr hc), hS.pondDepth_active hc, rPowerR_eq hpow.half (abs_nonneg _),
      rPowerR_eq hpow.fiveThirds (topDepth_nonneg _ _), hslope c hc, (hS.column_values hc).2.2]
    unfold flowVelocity npSign
    split_ifs <;> ring
  · rw [if_neg hc, if_neg (fun h => hc ((hS.top_nonneg_iff hg).mp h))]

/-- The velocity of a column of the domain, 0 beyond it. -/
def paddedVelocity (P : OverlandData K) (pressure : NdArray K) (slope mannings : PlaneArray K) (c : ℤ × ℤ) : K :=
  if (0 ≤ c.1 ∧ c.1 < pressure.dims.2.2) ∧ 0 ≤ c.2 ∧ c.2 < pressure.dims.2.1 then
    flowVelocity P pressure slope mannings c
  else
    0

/-- The flux between a column and the next one along an axis. -/
def faceFlux (P : OverlandData K) (pressure : NdArray K) (slope mannings : PlaneArray K) (e c : ℤ × ℤ) : K :=
  max (paddedVelocity P pressure slope mannings c) 0 - max (-paddedVelocity P pressure slope mannings (c + e)) 0

theorem columnVelocity_padded (slope : Subvector K) (slopes : PlaneArray K)
    (hslope : ∀ c, ActiveColumn mask c → slope.data (io P c) = slopes.get c.2 c.1) (hg : WithGhost nx ny c) :
    P.columnVelocity slope (io P c) (subvectorEltIndex P.top.dataSpace c.1 c.2 0) c.1 c.2 =
      paddedVelocity P pressure slopes mannings c := by
  rw [hS.columnVelocity_eq hpow slope slopes hslope hg]
  unfold paddedVelocity
  rw [hS.pressureDims]
  split_ifs with hc hdom hdom
  · rfl
  · exact absurd (hS.inDomain hc) hdom
  · unfold flowVelocity
    rw [hS.topDepth_inactive hg hc, hpow.fiveThirds, mul_zero]
  · rfl

theorem flow_faces {columns : List (ℤ × ℤ)} (hcols : ∀ c, c ∈ columns ↔ ActiveColumn mask c) (hc : ActiveColumn mask c)
    (faces : OverlandFaces K) :
    (P.overlandFlowEval columns faces).ke (io P c) = faceFlux P pressure slopex mannings (1, 0) c ∧
      (P.overlandFlowEval columns faces).kw (io P c) = faceFlux P pressure slopex mannings (1, 0) (c - (1, 0)) ∧
      (P.overlandFlowEval columns faces).kn (io P c) = faceFlux P pressure slopey mannings (0, 1) c ∧
      (P.overlandFlowEval columns faces).ks (io P c) = faceFlux P pressure slopey mannings (0, 1) (c - (0, 1)) := by
  have hmem := (hcols c).mpr hc
  have hsame : P.slopeX.dataSpace.nx = P.top.dataSpace.nx := by rw [hS.slopeSpace, hS.topSpace]
  have hne : ∀ c' ∈ columns, c' ≠ c → io P c ≠ io P c' := fun c' hc' h heq =>
    h (hS.io_inj (hS.withGhost_of_active hc) (hS.withGhost_of_active ((hcols c').mp hc')) heq).symm
  have hread : ∀ get : OverlandFaces K → K, ∀ x : K, (∀ F, get (P.flowFaces F c) = x) →
      (∀ F, ∀ c' ∈ columns, c' ≠ c → get (P.flowFaces F c') = get F) → get (P.overlandFlowEval columns faces) = x :=
    fun get x hset hkeep => foldl_get_of_mem get hset hkeep hmem faces
  have hke := hread (fun F => F.ke (io P c)) _ (fun F => Function.update_self _ _ _)
    fun F c' hc' h => Function.update_of_ne (hne c' hc' h) _ _
  have hkw := hread (fun F => F.kw (io P c)) _ (fun F => Function.update_self _ _ _)
    fun F c' hc' h => Function.update_of_ne (hne c' hc' h) _ _
  have hkn := hread (fun F => F.kn (io P c)) _ (fun F => Function.update_self _ _ _)
    fun F c' hc' h => Function.update_of_ne (hne c' hc' h) _ _
  have hks := hread (fun F => F.ks (io P c)) _ (fun F => Function.update_self _ _ _)
    fun F c' hc' h => Function.update_of_ne (hne c' hc' h) _ _
  obtain ⟨hg₁, hg₂, hg₃, hg₄⟩ := hS.neighbour_withGhost hc
  have hslopeX : ∀ c, ActiveColumn mask c → P.slopeX.data (io P c) = slopex.get c.2 c.1 := fun c hc => (hS.column_values hc).1
  have hslopeY : ∀ c, ActiveColumn mask c → P.slopeY.data (io P c) = slopey.get c.2 c.1 := fun c hc => (hS.column_values hc).2.1
  -- the velocities that the loop body reads around the column
  have hx : ∀ ii, WithGhost nx ny (c + (ii, 0)) →
      P.columnVelocity P.slopeX (subvectorEltIndex P.slopeX.dataSpace c.1 c.2 0 + ii)
        (subvectorEltIndex P.top.dataSpace c.1 c.2 0 + ii) (c.1 + ii) c.2 =
        paddedVelocity P pressure slopex mannings (c + (ii, 0)) := by
    intro ii hg
    rw [← hS.columnVelocity_padded hpow P.slopeX slopex hslopeX hg, OverlandData.subvectorEltIndex_x,
      OverlandData.subvectorEltIndex_x]
    unfold io
    rw [Prod.fst_add, Prod.snd_add, add_zero]
  have hy : ∀ ii, WithGhost nx ny (c + (0, ii)) →
      P.columnVelocity P.slopeY (subvectorEltIndex P.slopeX.dataSpace c.1 c.2 0 + ii * P.top.dataSpace.nx)
        (subvectorEltIndex P.top.dataSpace c.1 c.2 0 + ii * P.top.dataSpace.nx) c.1 (c.2 + ii) =
        paddedVelocity P pressure slopey mannings (c + (0, ii)) := by
    intro ii hg
    rw [← hS.columnVelocity_padded hpow P.slopeY slopey hslopeY hg, OverlandData.subvectorEltIndex_y, ← hsame,
      OverlandData.subvectorEltIndex_y]
    unfold io
    rw [Prod.fst_add, Prod.snd_add, add_zero]
  have hself := hS.withGhost_of_active hc
  have hback : ∀ e : ℤ × ℤ, c - e + e = c := fun e => sub_add_cancel c e
  rw [hke, hkw, hkn, hks]
  dsimp only
  unfold faceFlux
  rw [hback, hback, hx 0 (by rwa [← Prod.zero_eq_mk, add_zero]), hx 1 hg₁, hx (-1) hg₃, hy 0 (by rwa [← Prod.zero_eq_mk, add_zero]), hy 1 hg₂,
    hy (-1) hg₄, ← Prod.zero_eq_mk, add_zero]
  simp only [pfmax_eq]
  exact ⟨trivial, rfl, trivial, rfl⟩

/-- The fluxes along one line of columns, the two edges stacked to the upwinded differences. -/
def lineFlux (n : ℤ) (f : ℤ → K) (i : ℤ) : K :=
  if i < 1 + (n - 1) then (if i < 1 then -max 0 (-f 0) else max 0 (f (i - 1)) - max 0 (-f (i - 1 + 1))) else max 0 (f (n - 1))

omit hS hpow in
theorem lineFlux_eq {n i : ℤ} {f w : ℤ → K} {d : K} (hd : 0 ≤ d) (hf : ∀ u, 0 ≤ u → u < n → f u = w u * d)
    (hw : ∀ u, u < 0 ∨ n ≤ u → w u = 0) (hn : 0 < n) (hi : 0 ≤ i) (hi' : i ≤ n) :
    lineFlux n f i = d * (max (w (i - 1)) 0 - max (-w i) 0) := by
  have hmax : ∀ x : K, max 0 (x * d) = d * max x 0 := by
    intro x
    rw [mul_max_of_nonneg _ _ hd, mul_zero, mul_comm, max_comm]
  unfold lineFlux
  rcases lt_or_ge i n with hlt | hge
  · rw [if_pos (by omega)]
    split_ifs with hfirst
    · have hzero : i = 0 := by omega
      rw [hf 0 le_rfl hn, ← neg_mul, hmax, hzero, hw (0 - 1) (Or.inl (by norm_num)), max_self]
      ring
    · rw [sub_add_cancel, hf (i - 1) (by omega) (by omega), hf i hi hlt, ← neg_mul, hmax, hmax]
      ring
  · have hlast : n - 1 = i - 1 := by omega
    rw [if_neg (by omega), hlast, hf (i - 1) (by omega) (by omega), hmax, hw i (Or.inr hge), neg_zero, max_self, sub_zero]

theorem velocity_get (slopes : PlaneArray K) (d : K) (hdom : (0 ≤ c.1 ∧ c.1 < nx) ∧ 0 ≤ c.2 ∧ c.2 < ny) :
    -(npSign (slopes.get c.2 c.1) * P.powers.half |slopes.get c.2 c.1| / mannings.get c.2 c.1) *
      P.powers.fiveThirds ((clippedTop pressure).get c.2 c.1) * d = paddedVelocity P pressure slopes mannings c * d := by
  unfold paddedVelocity
  rw [hS.clippedTop_get hdom, hS.pressureDims, if_pos hdom]
  rfl

omit hpow in
theorem paddedVelocity_outside (slopes : PlaneArray K) (hout : ¬ ((0 ≤ c.1 ∧ c.1 < nx) ∧ 0 ≤ c.2 ∧ c.2 < ny)) :
    paddedVelocity P pressure slopes mannings c = 0 := by
  unfold paddedVelocity
  rw [hS.pressureDims]
  exact if_neg hout

theorem pyFlow_east (dx dy : K) (hdy : 0 ≤ dy) {i j : ℤ} (hnx : 0 < nx) (hi : 0 ≤ i) (hi' : i ≤ nx) (hj : 0 ≤ j) (hj' : j < ny) :
    (pyOverlandFlow P.powers (clippedTop pressure) slopex slopey mannings dx dy).1.get j i =
      dy * faceFlux P pressure slopex mannings (1, 0) (i - 1, j) := by
  have hwidth : pressure.dims.2.2 = nx := by rw [hS.pressureDims]
  have hline : (pyOverlandFlow P.powers (clippedTop pressure) slopex slopey mannings dx dy).1.get j i =
      lineFlux pressure.dims.2.2 (fun i => -(npSign (slopex.get j i) * P.powers.half |slopex.get j i| / mannings.get j i) *
        P.powers.fiveThirds ((clippedTop pressure).get j i) * dy) i := rfl
  unfold faceFlux
  rw [hline, hwidth, Prod.mk_add_mk, sub_add_cancel, add_zero]
  apply lineFlux_eq (w := fun u => paddedVelocity P pressure slopex mannings (u, j)) hdy ?_ ?_ hnx hi hi'
  · exact fun u hu hu' => hS.velocity_get hpow (c := (u, j)) slopex dy ⟨⟨hu, hu'⟩, hj, hj'⟩
  · intro u hu
    apply hS.paddedVelocity_outside (c := (u, j))
    dsimp only
    omega

theorem pyFlow_north (dx dy : K) (hdx : 0 ≤ dx) {i j : ℤ} (hny : 0 < ny) (hi : 0 ≤ i) (hi' : i < nx) (hj : 0 ≤ j) (hj' : j ≤ ny) :
    (pyOverlandFlow P.powers (clippedTop pressure) slopex slopey mannings dx dy).2.get j i =
      dx * faceFlux P pressure slopey mannings (0, 1) (i, j - 1) := by
  have hwidth : pressure.dims.2.1 = ny := by rw [hS.pressureDims]
  have hline : (pyOverlandFlow P.powers (clippedTop pressure) slopex slopey mannings dx dy).2.get j i =
      lineFlux pressure.dims.2.1 (fun j => -(npSign (slopey.get j i) * P.powers.half |slopey.get j i| / mannings.get j i) *
        P.powers.fiveThirds ((clippedTop pressure).get j i) * dx) j := rfl
  unfold faceFlux
  rw [hline, hwidth, Prod.mk_add_mk, sub_add_cancel, add_zero]
  apply lineFlux_eq (w := fun u => paddedVelocity P pressure slopey mannings (i, u)) hdx ?_ ?_ hny hj hj'
  · exact fun u hu hu' => hS.velocity_get hpow (c := (i, u)) slopey dx ⟨⟨hi, hi'⟩, hu, hu'⟩
  · intro u hu
    apply hS.paddedVelocity_outside (c := (i, u))
    dsimp only
    omega

end Flow

end SameSurface

/-! ## Both methods -/

/-- The fluxes of the Python tools around an active column are those of the simulator times the widths of the
faces, with both methods. -/
theorem calculateOverlandFluxes_eq (P : OverlandData K) (hpow : P.powers.KeepsZero) (heps : 0 < P.ovEpsilon)
    (mask pressure : NdArray K) (slopex slopey mannings : PlaneArray K) (nx ny nz : ℤ)
    (hS : SameSurface P mask pressure slopex slopey mannings nx ny nz) (dx dy : K) (hdx : 0 ≤ dx) (hdy : 0 ≤ dy)
    (columns : List (ℤ × ℤ)) (hcols : ∀ c, c ∈ columns ↔ ActiveColumn mask c) (q : (ℤ → K) × (ℤ → K))
    (hq : (∀ a, q.1 a = 0) ∧ ∀ a, q.2 a = 0) (faces : OverlandFaces K) (method : FlowMethod) (i j : ℤ)
    (hc : ActiveColumn mask (i, j)) :
    let fluxes := calculateOverlandFluxes P.powers pressure slopex slopey mannings dx dy method P.ovEpsilon (some mask)
    let F := if method = .overlandKinematic then P.overlandFlowEvalKin columns q faces else P.overlandFlowEval columns faces
    let io := subvectorEltIndex P.slopeX.dataSpace i j 0
    fluxes.1.get j (i + 1) = dy * F.ke io ∧ fluxes.1.get j i = dy * F.kw io ∧
      fluxes.2.get (j + 1) i = dx * F.kn io ∧ fluxes.2.get j i = dx * F.ks io := by
  intro fluxes F io
  obtain ⟨⟨hi, hi'⟩, hj, hj'⟩ := hS.inDomain hc
  dsimp only at hi hi' hj hj'
  cases method with
  | overlandFlow =>
    obtain ⟨hke, hkw, hkn, hks⟩ := hS.flow_faces hpow hcols hc faces
    have heast := hS.pyFlow_east hpow dx dy hdy (i := i + 1) (by omega) (by omega) (by omega) hj hj'
    have hwest := hS.pyFlow_east hpow dx dy hdy (i := i) (by omega) hi hi'.le hj hj'
    have hnorth := hS.pyFlow_north hpow dx dy hdx (j := j + 1) (by omega) hi hi' (by omega) (by omega)
    have hsouth := hS.pyFlow_north hpow dx dy hdx (j := j) (by omega) hi hi' hj hj'.le
    rw [add_sub_cancel_right, ← hke] at heast
    rw [add_sub_cancel_right, ← hkn] at hnorth
    rw [show (i - 1, j) = (i, j) - ((1, 0) : ℤ × ℤ) by rw [Prod.mk_sub_mk, sub_zero], ← hkw] at hwest
    rw [show (i, j - 1) = (i, j) - ((0, 1) : ℤ × ℤ) by rw [Prod.mk_sub_mk, sub_zero], ← hks] at hsouth
    exact ⟨heast, hwest, hnorth, hsouth⟩
  | overlandKinematic =>
    obtain ⟨hke, ⟨hkw, hkw'⟩, hkn, hks, hks'⟩ := hS.kinematic_faces hcols hc hq faces
    obtain ⟨heast, hwest, hwest'⟩ := hS.pyKinematic_x hpow heps hc dx dy
    obtain ⟨hnorth, hsouth, hsouth'⟩ := hS.pyKinematic_y hpow heps hc dx dy
    refine ⟨heast.trans (congrArg (dy * ·) hke.symm), ?_, hnorth.trans (congrArg (dx * ·) hkn.symm), ?_⟩
    · by_cases hbefore : ActiveColumn mask ((i, j) - (1, 0))
      · exact (hwest hbefore).trans (congrArg (dy * ·) (hkw hbefore).symm)
      · exact (hwest' hbefore).trans (congrArg (dy * ·) (hkw' hbefore).symm)
    · by_cases hbefore : ActiveColumn mask ((i, j) - (0, 1))
      · exact (hsouth hbefore).trans (congrArg (dx * ·) (hks hbefore).symm)
      · exact (hsouth' hbefore).trans (congrArg (dx * ·) (hks' hbefore).symm)

/-! ## A surface with a hole -/

/-- Two by two columns of one layer; the column `(0, 1)` is inactive. -/
def cornerMask : NdArray ℚ := ⟨(1, 2, 2), fun c => if c = (0, 1, 0) then 0 else 1⟩

def cornerPressure : NdArray ℚ :=
  ⟨(1, 2, 2), fun c => if c = (0, 0, 0) then 3 else if c = (0, 0, 1) then 1 else if c = (0, 1, 1) then 2 else -1⟩

def cornerData : OverlandData ℚ where
  powers := ⟨fun x => x, fun x => x⟩
  slopeX := ⟨OverlandData.planeSpace 2 2, fun _ => 1⟩
  slopeY := ⟨OverlandData.planeSpace 2 2, fun _ => 2⟩
  mannings := ⟨OverlandData.planeSpace 2 2, fun _ => 1⟩
  top := ⟨OverlandData.planeSpace 2 2, fun a => if a = 21 ∨ a = 22 ∨ a = 26 then 0 else -1⟩
  pressure := ⟨OverlandData.planeSpace 2 2, fun a => if a = 21 then 3 else if a = 22 then 1 else if a = 26 then 2 else -1⟩
  ovEpsilon := 1 / 100

theorem activeColumn_corner (c : ℤ × ℤ) : ActiveColumn cornerMask c ↔ c = (0, 0) ∨ c = (1, 0) ∨ c = (1, 1) := by
  obtain ⟨i, j⟩ := c
  constructor
  · rintro ⟨⟨⟨hi, hi'⟩, hj, hj'⟩, hpos⟩
    change i < 2 at hi'
    change j < 2 at hj'
    interval_cases i <;> interval_cases j
    · exact Or.inl rfl
    · exact absurd hpos (by decide)
    · exact Or.inr (Or.inl rfl)
    · exact Or.inr (Or.inr rfl)
  · rintro (h | h | h)
    all_goals
      rw [h]
      exact ⟨by decide, by decide⟩

theorem cornerSurface : SameSurface cornerData cornerMask cornerPressure ⟨2, 2, fun _ _ => 1⟩ ⟨2, 2, fun _ _ => 2⟩
    ⟨2, 2, fun _ _ => 1⟩ 2 2 1 where
  layers := by decide
  maskDims := rfl
  pressureDims := rfl
  slopeSpace := rfl
  topSpace := rfl
  slopeX := fun _ _ _ _ _ _ => rfl
  slopeY := fun _ _ _ _ _ _ => rfl
  mannings := fun _ _ _ _ _ _ => rfl
  top_active := by
    intro c hc
    rcases (activeColumn_corner c).mp hc with rfl | rfl | rfl <;> rfl
  top_inactive := by
    rintro ⟨i, j⟩ hi hi' hj hj' hc
    rw [activeColumn_corner] at hc
    dsimp only at hi hi' hj hj'
    interval_cases i <;> interval_cases j <;> first | rfl | exact absurd (by decide) hc
  pressure := by
    intro i j k hi hi' hj hj' hk hk'
    interval_cases i <;> interval_cases j <;> interval_cases k <;> rfl
  outside := by
    rintro ⟨i, j⟩ k hi hi' hj hj' hc hk hk'
    rw [activeColumn_corner] at hc
    dsimp only at hi hi' hj hj'
    interval_cases k
    interval_cases i <;> interval_cases j <;> first | decide | exact absurd (by decide) hc

def cornerFluxes (method : FlowMethod) : PlaneArray ℚ × PlaneArray ℚ :=
  calculateOverlandFluxes cornerData.powers cornerPressure ⟨2, 2, fun _ _ => 1⟩ ⟨2, 2, fun _ _ => 2⟩ ⟨2, 2, fun _ _ => 1⟩ 10 20
    method cornerData.ovEpsilon (some cornerMask)

/-- The flux from the inactive column into the active one beside it, with both methods. -/
theorem cornerFluxes_west :
    ((cornerFluxes .overlandKinematic).1.get 1 1 = -8 ∧
      (cornerFluxes .overlandKinematic).1.get 1 1 =
        20 * (cornerData.overlandFlowEvalKin [(0, 0), (1, 0), (1, 1)] (0, 0) ⟨0, 0, 0, 0⟩).kw 26) ∧
    (cornerFluxes .overlandFlow).1.get 1 1 = -40 ∧
      (cornerFluxes .overlandFlow).1.get 1 1 =
        20 * (cornerData.overlandFlowEval [(0, 0), (1, 0), (1, 1)] ⟨0, 0, 0, 0⟩).kw 26 := by
  have hcols : ∀ c, c ∈ [((0 : ℤ), (0 : ℤ)), (1, 0), (1, 1)] ↔ ActiveColumn cornerMask c := by
    intro c
    rw [activeColumn_corner]
    simp
  have h := fun method => calculateOverlandFluxes_eq cornerData ⟨rfl, rfl⟩ (by decide +kernel) cornerMask cornerPressure
    ⟨2, 2, fun _ _ => 1⟩ ⟨2, 2, fun _ _ => 2⟩ ⟨2, 2, fun _ _ => 1⟩ 2 2 1 cornerSurface 10 20 (by decide +kernel) (by decide +kernel)
    [(0, 0), (1, 0), (1, 1)] hcols (0, 0) ⟨fun _ => rfl, fun _ => rfl⟩ ⟨0, 0, 0, 0⟩ method 1 1
    ((activeColumn_corner _).mpr (Or.inr (Or.inr rfl)))
  exact ⟨⟨by decide +kernel, (h .overlandKinematic).2.1⟩, by decide +kernel, (h .overlandFlow).2.1⟩

end ParFlow
