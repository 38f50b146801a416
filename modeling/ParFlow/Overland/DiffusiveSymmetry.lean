import ParFlow.Overland.DiffusiveColumns

/-! Diffusive overland flow treats x and y alike only where nothing flows over a lower boundary: the fix for the lower y
boundary divides by `dx`, and the one of the derivatives does not set `kn_v`. -/

set_option linter.unusedSectionVars false

namespace ParFlow

namespace DiffusiveData

open scoped Numerals

variable {K : Type}

/-! ## Exchanging x and y -/

/-- A domain on one subgrid: no ghost belongs to the patch. -/
structure OneSubgrid (P : DiffusiveData K) (ghostColumns columns : List (ℤ × ℤ)) : Prop
    extends P.TopPatch ghostColumns columns where
  only : ∀ c ∈ ghostColumns, c ∈ columns

/-- The second data are the first with the roles of x and y exchanged. -/
structure Transposed (P P' : DiffusiveData K) : Prop where
  inSpace : ∀ c : ℤ × ℤ, P'.InSpace c.swap ↔ P.InSpace c
  slopeX : ∀ c : ℤ × ℤ, P.InSpace c → P'.slopeX.data (P'.io c.swap) = P.slopeY.data (P.io c)
  slopeY : ∀ c : ℤ × ℤ, P.InSpace c → P'.slopeY.data (P'.io c.swap) = P.slopeX.data (P.io c)
  mannings : ∀ c : ℤ × ℤ, P.InSpace c → P'.mannings.data (P'.io c.swap) = P.mannings.data (P.io c)
  top : ∀ c : ℤ × ℤ, P.InSpace c → P'.top.data (P'.itop c.swap) = P.top.data (P.itop c)
  pressure : ∀ c : ℤ × ℤ, P.InSpace c → ∀ k, P'.pressure.data (subvectorEltIndex P'.pressure.dataSpace c.2 c.1 k) =
    P.pressure.data (subvectorEltIndex P.pressure.dataSpace c.1 c.2 k)
  oldPressure : ∀ c : ℤ × ℤ, P.InSpace c → ∀ k,
    P'.oldPressure.data (subvectorEltIndex P'.pressure.dataSpace c.2 c.1 k) =
      P.oldPressure.data (subvectorEltIndex P.pressure.dataSpace c.1 c.2 k)
  dx : P'.dx = P.dy
  dy : P'.dy = P.dx
  ovEpsilon : P'.ovEpsilon = P.ovEpsilon

/-- Two sets of arrays that agree at a column of one and at the same column of the other. -/
structure SameAt (a a' : AxisArrays K) (io io' : ℤ) : Prop where
  high : a'.high io' = a.high io
  low : a'.low io' = a.low io
  highVns : a'.highVns io' = a.highVns io
  lowVns : a'.lowVns io' = a.lowVns io
  flux : a'.flux io' = a.flux io

def TransposedArrays (P P' : DiffusiveData K) (s s' : DiffusiveState K) : Prop :=
  ∀ c : ℤ × ℤ, P.InSpace c → ∀ ax : PlaneAxis, SameAt (s.axis ax) (s'.axis ax.other) (P.io c) (P'.io c.swap)

theorem swap_sub_unit (ax : PlaneAxis) (c : ℤ × ℤ) : (c - ax.unit).swap = c.swap - ax.other.unit := by
  cases ax <;> rfl

theorem swap_add_unit (ax : PlaneAxis) (c : ℤ × ℤ) : (c + ax.unit).swap = c.swap + ax.other.unit := by
  cases ax <;> rfl

namespace Transposed

variable [Field K] [LinearOrder K] {P P' : DiffusiveData K} (ht : Transposed P P') {c : ℤ × ℤ}

include ht

theorem k1_eq (hc : P.InSpace c) : P'.k1 c.swap = P.k1 c := ht.top c hc

theorem depth_eq (hc : P.InSpace c) : P'.depth (P'.ip c.swap) = P.depth (P.ip c) := by
  unfold depth ip
  rw [ht.k1_eq hc]
  exact congrArg (pfmax · 0) (ht.pressure c hc _)

theorem oldDepth_eq (hc : P.InSpace c) : P'.oldDepth (P'.ip c.swap) = P.oldDepth (P.ip c) := by
  unfold oldDepth ip
  rw [ht.k1_eq hc]
  exact congrArg (pfmax · 0) (ht.oldPressure c hc _)

/-- A column of the first data reads in one direction what its image reads in the other one. -/
theorem view_eq (hc : P.InSpace c) (hnext : ∀ ax : PlaneAxis, P.InSpace (c + ax.unit)) (ax : PlaneAxis) :
    P'.view ax.other c.swap = P.view ax c := by
  cases ax with
  | x =>
    have hup := ht.depth_eq (hnext .x)
    have hupo := ht.oldDepth_eq (hnext .x)
    rw [swap_add_unit] at hup hupo
    simp only [view, PlaneAxis.other, ipp1_eq, ippsy_eq, ht.slopeY c hc, ht.dy, ht.depth_eq hc, ht.oldDepth_eq hc]
    rw [← hup, ← hupo]
    rfl
  | y =>
    have hup := ht.depth_eq (hnext .y)
    have hupo := ht.oldDepth_eq (hnext .y)
    rw [swap_add_unit] at hup hupo
    simp only [view, PlaneAxis.other, ipp1_eq, ippsy_eq, ht.slopeX c hc, ht.dx, ht.depth_eq hc, ht.oldDepth_eq hc]
    rw [← hup, ← hupo]
    rfl

theorem k0_eq (ax : PlaneAxis) (hprev : P.InSpace (c - ax.unit)) : P'.k0 ax.other c.swap = P.k0 ax c := by
  rw [DiffusiveData.k0_eq, DiffusiveData.k0_eq, ← swap_sub_unit]
  exact ht.k1_eq hprev

theorem sfMag_eq (rPow : K → K → K) (a b : K) : P'.sfMag rPow a b = P.sfMag rPow a b := by
  unfold sfMag
  rw [ht.ovEpsilon]

theorem columnRes_eq (rPow : K → K → K) (hc : P.InSpace c) (hnext : ∀ ax : PlaneAxis, P.InSpace (c + ax.unit))
    (ax : PlaneAxis) : P'.columnRes rPow ax.other c.swap = P.columnRes rPow ax c := by
  have hother := ht.view_eq hc hnext ax.other
  unfold columnRes upperRes mann
  rw [ht.view_eq hc hnext ax, hother, ht.sfMag_eq, ht.mannings c hc]

theorem columnFlux_eq (rPow : K → K → K) (hc : P.InSpace c) (hnext : ∀ ax : PlaneAxis, P.InSpace (c + ax.unit))
    (ax : PlaneAxis) : P'.columnFlux rPow ax.other c.swap = P.columnFlux rPow ax c := by
  unfold columnFlux
  rw [ht.view_eq hc hnext, ht.columnRes_eq rPow hc hnext]

end Transposed

/-! ## Where both directions agree -/

section Exchange

variable [Field K] [LinearOrder K] {P P' : DiffusiveData K} {ghostColumns columns ghostColumns' columns' : List (ℤ × ℤ)}
  {s s' : DiffusiveState K}

/-- A call with x and y exchanged returns the same values, and the same derivatives, with x and y exchanged. -/
def ExchangesAxes (rPow : K → K → K) (P P' : DiffusiveData K) (ghostColumns columns ghostColumns' columns' : List (ℤ × ℤ))
    (s s' : DiffusiveState K) : Prop :=
  ∀ c ∈ columns, ∀ ax : PlaneAxis,
    let f := (P.overlandFlowEvalDiff rPow .calcFcn ghostColumns columns s).axis ax
    let f' := (P'.overlandFlowEvalDiff rPow .calcFcn ghostColumns' columns' s').axis ax.other
    let g := (P.overlandFlowEvalDiff rPow .calcDer ghostColumns columns s).axis ax
    let g' := (P'.overlandFlowEvalDiff rPow .calcDer ghostColumns' columns' s').axis ax.other
    let io := P.io c
    let io' := P'.io c.swap
    (f'.high io' = f.high io ∧ f'.low io' = f.low io) ∧ (g'.high io' = g.high io ∧ g'.low io' = g.low io) ∧
      g'.highVns io' = g.highVns io ∧ g'.lowVns io' = g.lowVns io

/-- No water flows over a lower boundary, and none would with the extents of the columns exchanged. -/
def NoLowerOutflow (P : DiffusiveData K) (columns : List (ℤ × ℤ)) : Prop :=
  ∀ c ∈ columns, ∀ ax : PlaneAxis, P.k0 ax c < 0 →
    (P.view ax c).sfLow (P.view ax c).d < 0 ∧ (P.view ax c).sfLow (P.view ax.other c).d ≤ 0

theorem TopPatch.prev_notMem (hp : P.TopPatch ghostColumns columns) {ax : PlaneAxis} {c : ℤ × ℤ} (hk : P.k0 ax c < 0) :
    c - ax.unit ∉ ghostColumns := by
  intro hmem
  rw [k0_eq] at hk
  exact absurd (hp.top _ hmem) (not_le.mpr hk)

theorem lowerFlux_eq_none {rPow : K → K → K} {ax : PlaneAxis} {c : ℤ × ℤ} (hflow : P.k0 ax c < 0 → (P.view ax c).sfLow P.dx ≤ 0) :
    P.lowerFlux rPow ax c = none := by
  unfold lowerFlux boundaryFlux
  split_ifs with hk hsf
  · exact absurd hsf (not_lt.mpr (hflow hk))
  · rfl
  · rfl

variable (hp : P.OneSubgrid ghostColumns columns) (hp' : P'.OneSubgrid ghostColumns' columns')
  (hcols : ∀ c : ℤ × ℤ, c.swap ∈ columns' ↔ c ∈ columns) (ht : Transposed P P') (hs : TransposedArrays P P' s s')

include hp

theorem OneSubgrid.mem_iff (c : ℤ × ℤ) : c ∈ ghostColumns ↔ c ∈ columns := ⟨hp.only c, hp.sub c⟩

theorem OneSubgrid.spaces {c : ℤ × ℤ} (hc : c ∈ columns) : P.InSpace c ∧ ∀ ax : PlaneAxis, P.InSpace (c + ax.unit) :=
  ⟨hp.inSpace c (hp.sub c hc), fun ax => (hp.inner c hc ax).2⟩

include hp' hcols ht hs

theorem fcn_exchange (rPow : K → K → K) {c : ℤ × ℤ} (hc : c ∈ columns) (ax : PlaneAxis)
    (hbound : P.k0 ax c < 0 → P'.lowerFlux rPow ax.other c.swap = P.lowerFlux rPow ax c) :
    let f := (P.overlandFlowEvalDiff rPow .calcFcn ghostColumns columns s).axis ax
    let f' := (P'.overlandFlowEvalDiff rPow .calcFcn ghostColumns' columns' s').axis ax.other
    f'.high (P'.io c.swap) = f.high (P.io c) ∧ f'.low (P'.io c.swap) = f.low (P.io c) := by
  intro f f'
  have hc' : c.swap ∈ columns' := (hcols c).mpr hc
  obtain ⟨hspace, hnext⟩ := hp.spaces hc
  constructor
  · rw [hp.fcn_high rPow ax s hc, hp'.fcn_high rPow ax.other s' hc']
    exact ht.columnFlux_eq rPow hspace hnext ax
  · have hswap := swap_sub_unit ax c
    by_cases hprev : c - ax.unit ∈ columns
    · have hprev' : c.swap - ax.other.unit ∈ columns' := hswap ▸ (hcols _).mpr hprev
      obtain ⟨hspace', hnext'⟩ := hp.spaces hprev
      rw [hp.fcn_low_prev rPow ax s hc (hp.sub _ hprev), hp'.fcn_low_prev rPow ax.other s' hc' (hp'.sub _ hprev'), ← hswap]
      exact ht.columnFlux_eq rPow hspace' hnext' ax
    · have hghost : c - ax.unit ∉ ghostColumns := fun h => hprev (hp.only _ h)
      have hghost' : c.swap - ax.other.unit ∉ ghostColumns' := by
        rw [← hswap, hp'.mem_iff, hcols]
        exact hprev
      have hflux : P'.lowerFlux rPow ax.other c.swap = P.lowerFlux rPow ax c := by
        by_cases hk : P.k0 ax c < 0
        · exact hbound hk
        · have hk' : ¬ P'.k0 ax.other c.swap < 0 := by rwa [ht.k0_eq ax (hp.inner c hc ax).1]
          rw [lowerFlux_eq_none (fun h => absurd h hk), lowerFlux_eq_none (fun h => absurd h hk')]
      rw [hp.fcn_low_first rPow ax s hc hghost, hp'.fcn_low_first rPow ax.other s' hc' hghost', hflux, ← hp.io_sub, ← hp'.io_sub,
        ← hswap, (hs _ (hp.inner c hc ax).1 ax).flux]

theorem der_exchange (rPow : K → K → K) {c : ℤ × ℤ} (hc : c ∈ columns) (ax : PlaneAxis)
    (hflow : P.k0 ax c < 0 → P.NoFlow ax c ∧ P'.NoFlow ax.other c.swap) :
    let g := (P.overlandFlowEvalDiff rPow .calcDer ghostColumns columns s).axis ax
    let g' := (P'.overlandFlowEvalDiff rPow .calcDer ghostColumns' columns' s').axis ax.other
    (g'.high (P'.io c.swap) = g.high (P.io c) ∧ g'.low (P'.io c.swap) = g.low (P.io c)) ∧
      g'.highVns (P'.io c.swap) = g.highVns (P.io c) ∧ g'.lowVns (P'.io c.swap) = g.lowVns (P.io c) := by
  intro g g'
  have hc' : c.swap ∈ columns' := (hcols c).mpr hc
  obtain ⟨hspace, hnext⟩ := hp.spaces hc
  have hhigh : g'.high (P'.io c.swap) = g.high (P.io c) := by
    rw [hp.der_high rPow ax s hc, hp'.der_high rPow ax.other s' hc', ht.view_eq hspace hnext, ht.columnRes_eq rPow hspace hnext]
  have hhighVns : g'.highVns (P'.io c.swap) = g.highVns (P.io c) := by
    rw [hp.der_highVns rPow ax s hc, hp'.der_highVns rPow ax.other s' hc', ht.view_eq hspace hnext,
      ht.columnRes_eq rPow hspace hnext]
  have hlow : g'.low (P'.io c.swap) = g.low (P.io c) ∧ g'.lowVns (P'.io c.swap) = g.lowVns (P.io c) := by
    have hswap := swap_sub_unit ax c
    have hkswap := ht.k0_eq ax (hp.inner c hc ax).1
    by_cases hprev : c - ax.unit ∈ columns
    · have hprev' : c.swap - ax.other.unit ∈ columns' := hswap ▸ (hcols _).mpr hprev
      obtain ⟨hspace', hnext'⟩ := hp.spaces hprev
      obtain ⟨h₁, h₂⟩ := hp.der_prev rPow ax s hprev
      obtain ⟨h₁', h₂'⟩ := hp'.der_prev rPow ax.other s' hprev'
      rw [h₁, h₂, h₁', h₂', ← hswap, ht.view_eq hspace' hnext', ht.columnRes_eq rPow hspace' hnext']
      exact ⟨rfl, rfl⟩
    by_cases hk : P.k0 ax c < 0
    · obtain ⟨hno, hno'⟩ := hflow hk
      obtain ⟨h₁, h₂⟩ := hp.der_bound rPow ax s hc hk
      obtain ⟨h₁', h₂'⟩ := hp'.der_bound rPow ax.other s' hc' (hkswap ▸ hk)
      rw [h₁, h₂, h₁', h₂', if_pos hno, if_pos hno']
      exact ⟨rfl, rfl⟩
    · have hprev' : c.swap - ax.other.unit ∉ columns' := by
        rw [← hswap, hcols]
        exact hprev
      obtain ⟨h₁, h₂⟩ := hp.der_free rPow ax s hc hk hprev
      obtain ⟨h₁', h₂'⟩ := hp'.der_free rPow ax.other s' hc' (hkswap ▸ hk) hprev'
      rw [h₁, h₂, h₁', h₂']
      exact ⟨(hs c hspace ax).low, (hs c hspace ax).lowVns⟩
  exact ⟨⟨hhigh, hlow.1⟩, hhighVns, hlow.2⟩

end Exchange

/-! ## A power that shows the difference -/

section Tuned

variable [Field K] [LinearOrder K] [IsStrictOrderedRing K] {P : DiffusiveData K}

/-- A power whose values for the exponent `5/3` are `t`, and 1 for the other exponents. -/
def tunedPower (t : K) : K → K → K := fun _ r => if r = 5 / 3 then t else 1

theorem tunedPower_fiveThirds (t x : K) : tunedPower t x (5 / 3) = t := if_pos rfl

theorem resistance_tunedPower (t mag mann : K) : resistance (tunedPower t) mag mann = mann := by
  have hne : (1 / 2 : K) ≠ 5 / 3 := by norm_num
  unfold resistance tunedPower
  rw [if_neg hne, one_mul]

/-- The flux over a lower boundary takes every value. -/
theorem exists_lowerFlux {ax : PlaneAxis} {c : ℤ × ℤ} (hk : P.k0 ax c < 0) (hsf : 0 < (P.view ax c).sfLow P.dx)
    (hmann : P.mann c ≠ 0) (u : K) : ∃ t, P.lowerFlux (tunedPower t) ax c = some u := by
  refine ⟨-(u * P.mann c / (P.view ax c).sfLow P.dx), ?_⟩
  unfold lowerFlux boundaryFlux boundaryRes diffusiveFlux
  rw [if_pos hk, if_pos hsf, resistance_tunedPower, tunedPower_fiveThirds, Option.some_inj]
  have hsf' := hsf.ne'
  field_simp

/-- So does the derivative over a lower x boundary. -/
theorem exists_lowerHigh {c : ℤ × ℤ} (hmann : P.mann c ≠ 0) (hdx : P.dx ≠ 0) (u : K) :
    ∃ t, (P.flowFace (tunedPower t) .x c).high = some u := by
  refine ⟨u * (P.mann c * P.dx), ?_⟩
  have hd : (P.view .x c).d = P.dx := rfl
  simp only [flowFace, lowerHighOf, lowerHigh, lowerRes, boundaryRes, resistance_tunedPower, tunedPower_fiveThirds, hd]
  rw [Option.some_inj, mul_div_cancel_right₀ _ (mul_ne_zero hmann hdx)]

variable {ghostColumns columns : List (ℤ × ℤ)} (hp : P.OneSubgrid ghostColumns columns) {c : ℤ × ℤ} (hc : c ∈ columns)
  (s : DiffusiveState K)

include hp hc

theorem exists_fcn_low {ax : PlaneAxis} (hk : P.k0 ax c < 0) (hsf : 0 < (P.view ax c).sfLow P.dx) (hmann : P.mann c ≠ 0)
    (u : K) :
    ∃ t, ((P.overlandFlowEvalDiff (tunedPower t) .calcFcn ghostColumns columns s).axis ax).low (P.io c) = u := by
  obtain ⟨t, ht⟩ := exists_lowerFlux hk hsf hmann u
  refine ⟨t, ?_⟩
  rw [hp.fcn_low_first _ ax s hc (hp.prev_notMem hk), ht, Option.getD_some]

theorem fcn_low_closed (rPow : K → K → K) {ax : PlaneAxis} (hk : P.k0 ax c < 0) (hsf : (P.view ax c).sfLow P.dx ≤ 0) :
    ((P.overlandFlowEvalDiff rPow .calcFcn ghostColumns columns s).axis ax).low (P.io c) =
      (s.axis ax).flux (P.io c - P.step ax) := by
  rw [hp.fcn_low_first _ ax s hc (hp.prev_notMem hk), lowerFlux_eq_none fun _ => hsf, Option.getD_none]

theorem exists_der_lowVns_x (hk : P.k0 .x c < 0) (hflow : ¬ P.NoFlow .x c) (hmann : P.mann c ≠ 0) (hdx : P.dx ≠ 0) (u : K) :
    ∃ t, ((P.overlandFlowEvalDiff (tunedPower t) .calcDer ghostColumns columns s).axis .x).lowVns (P.io c) = u := by
  obtain ⟨t, ht⟩ := exists_lowerHigh hmann hdx u
  refine ⟨t, ?_⟩
  rw [(hp.der_bound _ .x s hc hk).2, if_neg hflow, ht, Option.getD_some]

/-- The derivative over a lower y boundary is 0 or what was there before the call. -/
theorem der_lowVns_y (rPow : K → K → K) (hk : P.k0 .y c < 0) :
    let value := ((P.overlandFlowEvalDiff rPow .calcDer ghostColumns columns s).axis .y).lowVns (P.io c)
    value = 0 ∨ value = (s.axis .y).high (P.io c - P.step .y) := by
  intro value
  have hvalue : value = _ := (hp.der_bound rPow .y s hc hk).2
  rw [hvalue]
  split_ifs
  · exact Or.inl rfl
  · exact Or.inr rfl

end Tuned

section Law

variable [Field K] [LinearOrder K] [IsStrictOrderedRing K] {P P' : DiffusiveData K}
  {ghostColumns columns ghostColumns' columns' : List (ℤ × ℤ)} {s s' : DiffusiveState K}

theorem Transposed.sfLow_eq (ht : Transposed P P') (hp : P.OneSubgrid ghostColumns columns) {c : ℤ × ℤ} (hc : c ∈ columns)
    (ax : PlaneAxis) (d : K) : (P'.view ax.other c.swap).sfLow d = (P.view ax c).sfLow d := by
  rw [ht.view_eq (hp.spaces hc).1 (hp.spaces hc).2]

theorem NoLowerOutflow.noFlow (h : P.NoLowerOutflow columns) {c : ℤ × ℤ} (hc : c ∈ columns) {ax : PlaneAxis}
    (hk : P.k0 ax c < 0) : P.NoFlow ax c := by
  cases ax with
  | x => exact (h c hc .x hk).1
  | y => exact Or.inl (h c hc .y hk).1

variable (hp : P.OneSubgrid ghostColumns columns) (hp' : P'.OneSubgrid ghostColumns' columns')
  (hcols : ∀ c : ℤ × ℤ, c.swap ∈ columns' ↔ c ∈ columns) (ht : Transposed P P') (hs : TransposedArrays P P' s s')

include hp hp' hcols ht

include hs in
theorem exchangesAxes_of_noLowerOutflow (h : P.NoLowerOutflow columns) (rPow : K → K → K) :
    ExchangesAxes rPow P P' ghostColumns columns ghostColumns' columns' s s' := by
  intro c hc ax
  refine ⟨fcn_exchange hp hp' hcols ht hs rPow hc ax ?_, der_exchange hp hp' hcols ht hs rPow hc ax ?_⟩
  · intro hk
    obtain ⟨hown, hother⟩ := h c hc ax hk
    have hle : (P.view ax c).sfLow P.dx ≤ 0 ∧ (P.view ax c).sfLow P.dy ≤ 0 := by
      cases ax with
      | x => exact ⟨hown.le, hother⟩
      | y => exact ⟨hother, hown.le⟩
    rw [lowerFlux_eq_none fun _ => hle.1, lowerFlux_eq_none]
    intro _
    rw [ht.sfLow_eq hp hc, ht.dx]
    exact hle.2
  · intro hk
    refine ⟨h.noFlow hc hk, ?_⟩
    cases ax with
    | x =>
      refine Or.inl ?_
      rw [ht.dy]
      exact (ht.sfLow_eq hp hc .x P.dx).trans_lt (h c hc .x hk).1
    | y =>
      show (P'.view .x c.swap).sfLow P'.dx < 0
      rw [ht.dx]
      exact (ht.sfLow_eq hp hc .y P.dy).trans_lt (h c hc .y hk).1

theorem noLowerOutflow_of_exchangesAxes (hdx : P.dx ≠ 0) (hdy : P.dy ≠ 0) (hmann : ∀ c ∈ columns, P.mann c ≠ 0)
    (h : ∀ rPow, ExchangesAxes rPow P P' ghostColumns columns ghostColumns' columns' s s') :
    P.NoLowerOutflow columns := by
  intro c hc ax hk
  have hc' : c.swap ∈ columns' := (hcols c).mpr hc
  have hk' : P'.k0 ax.other c.swap < 0 := by rwa [ht.k0_eq ax (hp.inner c hc ax).1]
  have hmann' : P'.mann c.swap ≠ 0 := by
    unfold mann
    rw [ht.mannings c (hp.spaces hc).1]
    exact hmann c hc
  -- a value other than 0 and another one
  have hvalue : ∀ v : K, ∃ u, u ≠ 0 ∧ u ≠ v := by
    intro v
    by_cases hv : v = 1
    · exact ⟨2, two_ne_zero, by rw [hv]; norm_num⟩
    · exact ⟨1, one_ne_zero, Ne.symm hv⟩
  have hown : (P.view ax c).sfLow (P.view ax c).d < 0 := by
    by_contra hflow
    cases ax with
    | x =>
      obtain ⟨u, hu, hu'⟩ := hvalue ((s'.axis .y).high (P'.io c.swap - P'.step .y))
      obtain ⟨t, hlow⟩ := exists_der_lowVns_x hp hc s hk hflow (hmann c hc) hdx u
      have hsame := (h (tunedPower t) c hc .x).2.2.2
      rw [hlow] at hsame
      rcases der_lowVns_y hp' hc' s' (tunedPower t) hk' with h0 | h0
      · exact hu (hsame.symm.trans h0)
      · exact hu' (hsame.symm.trans h0)
    | y =>
      have hflow' : ¬ P'.NoFlow .x c.swap := by
        show ¬ (P'.view .x c.swap).sfLow P'.dx < 0
        rw [ht.dx]
        exact fun hlt => hflow ((ht.sfLow_eq hp hc .y P.dy).symm.trans_lt hlt)
      obtain ⟨u, hu, hu'⟩ := hvalue ((s.axis .y).high (P.io c - P.step .y))
      obtain ⟨t, hlow⟩ := exists_der_lowVns_x hp' hc' s' hk' hflow' hmann' (ht.dx ▸ hdy) u
      have hsame := (h (tunedPower t) c hc .y).2.2.2
      rw [PlaneAxis.other, hlow] at hsame
      rcases der_lowVns_y hp hc s (tunedPower t) hk with h0 | h0
      · exact hu (hsame.trans h0)
      · exact hu' (hsame.trans h0)
  refine ⟨hown, ?_⟩
  by_contra hflow
  rw [not_le] at hflow
  cases ax with
  | x =>
    have hflow' : 0 < (P'.view .y c.swap).sfLow P'.dx := by
      rw [ht.dx]
      exact hflow.trans_eq (ht.sfLow_eq hp hc .x P.dy).symm
    obtain ⟨t, hlow⟩ := exists_fcn_low hp' hc' s' hk' hflow' hmann' ((s.axis .x).flux (P.io c - P.step .x) + 1)
    have hsame := (h (tunedPower t) c hc .x).1.2
    rw [hlow, fcn_low_closed hp hc s _ hk hown.le] at hsame
    exact one_ne_zero (left_eq_add.mp hsame.symm)
  | y =>
    have hclosed : (P'.view .x c.swap).sfLow P'.dx ≤ 0 := by
      rw [ht.dx]
      exact ((ht.sfLow_eq hp hc .y P.dy).trans_lt hown).le
    obtain ⟨t, hlow⟩ := exists_fcn_low hp hc s hk hflow (hmann c hc) ((s'.axis .x).flux (P'.io c.swap - P'.step .x) + 1)
    have hsame := (h (tunedPower t) c hc .y).1.2
    rw [hlow, fcn_low_closed hp' hc' s' _ hk' hclosed] at hsame
    exact one_ne_zero (left_eq_add.mp hsame)

/-- Whatever the power is, a call with x and y exchanged returns the results with x and y exchanged, exactly when
no water flows over a lower boundary. -/
theorem exchangesAxes_iff (hs : TransposedArrays P P' s s') (hdx : 0 < P.dx) (hdy : 0 < P.dy)
    (hmann : ∀ c ∈ columns, P.mann c ≠ 0) :
    (∀ rPow, ExchangesAxes rPow P P' ghostColumns columns ghostColumns' columns' s s') ↔ P.NoLowerOutflow columns :=
  ⟨noLowerOutflow_of_exchangesAxes hp hp' hcols ht hdx.ne' hdy.ne' hmann,
    exchangesAxes_of_noLowerOutflow hp hp' hcols ht hs⟩

end Law

/-! ## One column -/

/-- A domain of one column with its top in layer 0 and water of depth 1 on a level ground. -/
def oneColumn (dx dy : ℚ) : DiffusiveData ℚ :=
  let space := ghostSpace (newSubgrid 0 0 0 1 1 1 0 0 0 0) 1
  { slopeX := ⟨space, fun _ => 0⟩
    slopeY := ⟨space, fun _ => 0⟩
    mannings := ⟨space, fun _ => 1⟩
    top := ⟨space, fun n => if n = subvectorEltIndex space 0 0 0 then 0 else -1⟩
    pressure := ⟨space, fun _ => 1⟩
    oldPressure := ⟨space, fun _ => 1⟩
    dx := dx
    dy := dy
    ovEpsilon := 1 }

def zeroArrays : AxisArrays ℚ := ⟨fun _ => 0, fun _ => 0, fun _ => 0, fun _ => 0, fun _ => 0⟩

def zeroState : DiffusiveState ℚ := ⟨⟨0, 0, 0, 0, 0⟩, zeroArrays, zeroArrays⟩

theorem oneColumn_oneSubgrid (dx dy : ℚ) : (oneColumn dx dy).OneSubgrid [(0, 0)] [(0, 0)] where
  space := rfl
  inSpace c hc := by
    rw [List.mem_singleton.mp hc]
    simp only [InSpace, oneColumn]
    decide
  sub _ hc := hc
  inner c hc ax := by
    rw [List.mem_singleton.mp hc]
    simp only [InSpace, oneColumn]
    cases ax <;> decide
  top c hc := by
    rw [List.mem_singleton.mp hc]
    simp only [k1, itop, oneColumn]
    decide
  only _ hc := hc

theorem oneColumn_transposed (dx dy : ℚ) : Transposed (oneColumn dx dy) (oneColumn dy dx) where
  inSpace c := and_comm
  slopeX _ _ := rfl
  slopeY _ _ := rfl
  mannings _ _ := rfl
  top c hc := by
    simp only [oneColumn, itop, subvectorEltIndex, ghostSpace, newSubgrid, InSpace, Prod.fst_swap, Prod.snd_swap] at hc ⊢
    split_ifs <;> omega
  pressure _ _ _ := rfl
  oldPressure _ _ _ := rfl
  dx := rfl
  dy := rfl
  ovEpsilon := rfl

theorem zeroState_transposed (P P' : DiffusiveData ℚ) : TransposedArrays P P' zeroState zeroState := by
  intro c _ ax
  cases ax <;> exact ⟨rfl, rfl, rfl, rfl, rfl⟩

theorem oneColumn_mem (c : ℤ × ℤ) : c.swap ∈ [((0, 0) : ℤ × ℤ)] ↔ c ∈ [((0, 0) : ℤ × ℤ)] := by
  simp only [List.mem_singleton, Prod.ext_iff, Prod.fst_swap, Prod.snd_swap, and_comm]

theorem oneColumn_exchanges_iff :
    (∀ rPow, ExchangesAxes rPow (oneColumn 1 2) (oneColumn 2 1) [(0, 0)] [(0, 0)] [(0, 0)] [(0, 0)] zeroState zeroState) ↔
      (oneColumn 1 2).NoLowerOutflow [(0, 0)] :=
  exchangesAxes_iff (oneColumn_oneSubgrid 1 2) (oneColumn_oneSubgrid 2 1) oneColumn_mem (oneColumn_transposed 1 2)
    (zeroState_transposed _ _) one_pos two_pos (fun _ _ => one_ne_zero)

/-- With columns twice as long in y as in x, the flux over the lower y boundary is twice the one over the lower x
boundary of the exchanged domain. -/
theorem oneColumn_not_exchanged :
    (oneColumn 1 2).OneSubgrid [(0, 0)] [(0, 0)] ∧ (oneColumn 2 1).OneSubgrid [(0, 0)] [(0, 0)] ∧
      Transposed (oneColumn 1 2) (oneColumn 2 1) ∧ TransposedArrays (oneColumn 1 2) (oneColumn 2 1) zeroState zeroState ∧
        ¬ ExchangesAxes (fun _ _ => 1) (oneColumn 1 2) (oneColumn 2 1) [(0, 0)] [(0, 0)] [(0, 0)] [(0, 0)]
          zeroState zeroState := by
  refine ⟨oneColumn_oneSubgrid 1 2, oneColumn_oneSubgrid 2 1, oneColumn_transposed 1 2, zeroState_transposed _ _, ?_⟩
  intro h
  have hsame := (h (0, 0) (List.mem_singleton_self _) .y).1.2
  revert hsame
  decide +kernel

end DiffusiveData

end ParFlow
