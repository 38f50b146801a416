import ParFlow.Lib.PointLoop
import ParFlow.Lib.Strided
import ParFlow.Overland.DiffusiveCells

/-! The arrays that the diffusive evaluation leaves at the columns of a patch of the top. -/

namespace ParFlow

open WriteLog Strided

variable {K : Type}

/-- Cells of a data space have different indices, whatever their layers are. -/
theorem subvectorEltIndex_inj {ds : Subgrid} {c c' : ℤ × ℤ} {k k' : ℤ}
    (hc : (ds.ix ≤ c.1 ∧ c.1 < ds.ix + ds.nx) ∧ ds.iy ≤ c.2 ∧ c.2 < ds.iy + ds.ny)
    (hc' : (ds.ix ≤ c'.1 ∧ c'.1 < ds.ix + ds.nx) ∧ ds.iy ≤ c'.2 ∧ c'.2 < ds.iy + ds.ny)
    (h : subvectorEltIndex ds c.1 c.2 k = subvectorEltIndex ds c'.1 c'.2 k') : c = c' ∧ k = k' := by
  unfold subvectorEltIndex at h
  obtain ⟨h₁, h₂⟩ := radix_inj (by omega) (by omega) h
  obtain ⟨h₃, h₄⟩ := radix_inj (by omega) (by omega) h₂
  exact ⟨Prod.ext (by omega) (by omega), by omega⟩

namespace DiffusiveData

variable {P : DiffusiveData K} {ghostColumns columns : List (ℤ × ℤ)}

/-- The columns of the data space of the planes. -/
def InSpace (P : DiffusiveData K) (c : ℤ × ℤ) : Prop :=
  (P.top.dataSpace.ix ≤ c.1 ∧ c.1 < P.top.dataSpace.ix + P.top.dataSpace.nx) ∧
    P.top.dataSpace.iy ≤ c.2 ∧ c.2 < P.top.dataSpace.iy + P.top.dataSpace.ny

/-- The columns that the loops visit have their top in the patch. The data space has a layer of ghosts around those of
the subgrid. -/
structure TopPatch (P : DiffusiveData K) (ghostColumns columns : List (ℤ × ℤ)) : Prop where
  space : P.slopeX.dataSpace = P.top.dataSpace
  inSpace : ∀ c ∈ ghostColumns, P.InSpace c
  sub : ∀ c ∈ columns, c ∈ ghostColumns
  inner : ∀ c ∈ columns, ∀ ax : PlaneAxis, P.InSpace (c - ax.unit) ∧ P.InSpace (c + ax.unit)
  top : ∀ c ∈ ghostColumns, 0 ≤ P.k1 c

theorem itop_sub (ax : PlaneAxis) (c : ℤ × ℤ) : P.itop (c - ax.unit) = P.itop c - P.step ax := by
  cases ax with
  | x =>
    simp only [itop, step, PlaneAxis.unit, subvectorEltIndex, Prod.fst_sub, Prod.snd_sub]
    ring
  | y =>
    simp only [itop, step, syV, PlaneAxis.unit, subvectorEltIndex, Prod.fst_sub, Prod.snd_sub]
    ring

/-- The top before a column. -/
theorem k0_eq (ax : PlaneAxis) (c : ℤ × ℤ) : P.k0 ax c = P.k1 (c - ax.unit) := by
  unfold k1
  rw [itop_sub]
  cases ax <;> rfl

/-- The index of the top cell of the next column. -/
theorem ipp1_eq (P : DiffusiveData K) (c : ℤ × ℤ) : P.ipp1 c = P.ip (c + PlaneAxis.unit .x) := by
  have htop : P.itop (c + PlaneAxis.unit .x) = P.itop c + 1 := by
    simp only [itop, PlaneAxis.unit, subvectorEltIndex, Prod.fst_add, Prod.snd_add]
    ring
  simp only [ipp1, ip, k1x, k1, htop]
  simp only [PlaneAxis.unit, Prod.fst_add, Prod.snd_add, add_zero]

theorem ippsy_eq (P : DiffusiveData K) (c : ℤ × ℤ) : P.ippsy c = P.ip (c + PlaneAxis.unit .y) := by
  have htop : P.itop (c + PlaneAxis.unit .y) = P.itop c + P.syV := by
    simp only [itop, syV, PlaneAxis.unit, subvectorEltIndex, Prod.fst_add, Prod.snd_add]
    ring
  simp only [ippsy, ip, k1y, k1, htop]
  simp only [PlaneAxis.unit, Prod.fst_add, Prod.snd_add, add_zero]

namespace TopPatch

variable (hp : P.TopPatch ghostColumns columns) {ax : PlaneAxis} {c c' : ℤ × ℤ}

include hp

theorem io_eq (c : ℤ × ℤ) : P.io c = P.itop c := by
  unfold io itop
  rw [hp.space]

theorem io_inj (hc : P.InSpace c) (hc' : P.InSpace c') (h : P.io c = P.io c') : c = c' := by
  rw [hp.io_eq, hp.io_eq] at h
  exact (subvectorEltIndex_inj hc hc' h).1

theorem io_sub (ax : PlaneAxis) (c : ℤ × ℤ) : P.io (c - ax.unit) = P.io c - P.step ax := by
  rw [hp.io_eq, hp.io_eq, itop_sub]

theorem ghost_inj : ∀ c ∈ ghostColumns, ∀ c' ∈ ghostColumns, P.io c = P.io c' → c = c' :=
  fun c hc c' hc' h => hp.io_inj (hp.inSpace c hc) (hp.inSpace c' hc') h

/-- The place before a column on a lower boundary belongs to no column. -/
theorem before_ne (hk : P.k0 ax c < 0) (hc' : c' ∈ ghostColumns) : P.io c - P.step ax ≠ P.io c' := by
  intro h
  have heq : P.itop (c - ax.unit) = P.itop c' := by rw [itop_sub, ← hp.io_eq, ← hp.io_eq, h]
  have htop : P.k0 ax c = P.k1 c' := by
    rw [k0_eq]
    unfold k1
    rw [heq]
  exact absurd (htop ▸ hk) (not_lt.mpr (hp.top c' hc'))

theorem prev_eq (hc : c ∈ columns) (hc' : c' ∈ ghostColumns) (h : P.io c' + P.step ax = P.io c) : c' = c - ax.unit :=
  hp.io_inj (hp.inSpace c' hc') (hp.inner c hc ax).1 (by rw [hp.io_sub, ← h, add_sub_cancel_right])

end TopPatch

/-! ## Values -/

variable [Field K] [LinearOrder K] (rPow : K → K → K) (ax : PlaneAxis) {c : ℤ × ℤ} (s : DiffusiveState K)

/-! ## Values -/

omit [Field K] [LinearOrder K] in
theorem fcnFaces_flux (l : List (ℤ × ℤ)) : ((l.foldl P.fcnFaces s).axis ax).flux = (s.axis ax).flux := by
  refine PointLoop.foldl_get_of_keep (fun s : DiffusiveState K => (s.axis ax).flux) ?_ s
  intro s c _
  cases ax <;> rfl

omit [Field K] [LinearOrder K] in
/-- A loop that gives every column's place a value of the place. -/
theorem copyLoop (f : ℤ → K) (hc : c ∈ columns) (d : ℤ → K) :
    columns.foldl (fun d c => replay [(P.io c, f (P.io c))] d) d (P.io c) = f (P.io c) := by
  rw [foldl_replay]
  refine replay_of_mem (List.mem_flatMap.mpr ⟨c, hc, List.mem_singleton_self _⟩) ?_ _
  intro v hv
  obtain ⟨c', -, hmem⟩ := List.mem_flatMap.mp hv
  obtain ⟨hio, hval⟩ := Prod.mk.inj (List.mem_singleton.mp hmem)
  rw [hval, hio]

omit [Field K] [LinearOrder K] in
/-- The second loop copies the fluxes on both sides of a column. -/
theorem fcnFaces_axis (hc : c ∈ columns) :
    ((columns.foldl P.fcnFaces s).axis ax).high (P.io c) = (s.axis ax).flux (P.io c) ∧
      ((columns.foldl P.fcnFaces s).axis ax).low (P.io c) = (s.axis ax).flux (P.io c - P.step ax) := by
  have hkeep : ∀ t : DiffusiveState K, (t.axis ax).flux = (s.axis ax).flux → ∀ c ∈ columns,
      ((P.fcnFaces t c).axis ax).flux = (s.axis ax).flux := fun t ht c _ => (fcnFaces_flux ax t [c]).trans ht
  have hhigh : ((columns.foldl P.fcnFaces s).axis ax).high =
      columns.foldl (fun d c => replay [(P.io c, (s.axis ax).flux (P.io c))] d) (s.axis ax).high := by
    refine foldl_hom_of_inv (fun t : DiffusiveState K => (t.axis ax).high) _ hkeep ?_ rfl
    intro t ht c _
    rw [← ht]
    cases ax <;> rfl
  have hlow : ((columns.foldl P.fcnFaces s).axis ax).low =
      columns.foldl (fun d c => replay [(P.io c, (s.axis ax).flux (P.io c - P.step ax))] d) (s.axis ax).low := by
    refine foldl_hom_of_inv (fun t : DiffusiveState K => (t.axis ax).low) _ hkeep ?_ rfl
    intro t ht c _
    rw [← ht]
    cases ax <;> rfl
  rw [hhigh, hlow]
  exact ⟨copyLoop _ hc _, copyLoop (fun a => (s.axis ax).flux (a - P.step ax)) hc _⟩

namespace TopPatch

variable (hp : P.TopPatch ghostColumns columns)

include hp

theorem fcnLoop_flux : ((ghostColumns.foldl (P.fcnCell rPow) s).axis ax).flux =
    replay (sweepLog P.io (P.step ax) (P.columnFlux rPow ax) (P.lowerFlux rPow ax) ghostColumns) (s.axis ax).flux := by
  rw [sweepLog, ← foldl_replay]
  exact foldl_hom_of_mem (fun s : DiffusiveState K => (s.axis ax).flux) (fun s c hc => fcnCell_flux rPow ax (hp.top c hc) s) s

theorem lowerFlux_low : ∀ c ∈ ghostColumns, (P.lowerFlux rPow ax c).isSome →
    ∀ c' ∈ ghostColumns, P.io c - P.step ax ≠ P.io c' := by
  intro c _ hsome c' hc'
  refine hp.before_ne ?_ hc'
  by_contra hk
  rw [lowerFlux, if_neg hk] at hsome
  exact Bool.false_ne_true hsome

variable (hc : c ∈ columns)

include hc

theorem fcn_high : ((P.overlandFlowEvalDiff rPow .calcFcn ghostColumns columns s).axis ax).high (P.io c) =
    P.columnFlux rPow ax c := by
  refine (fcnFaces_axis ax _ hc).1.trans ?_
  rw [hp.fcnLoop_flux]
  exact replay_sweepLog_self hp.ghost_inj (hp.lowerFlux_low rPow ax) (hp.sub c hc) _

theorem fcn_low_prev (hprev : c - ax.unit ∈ ghostColumns) :
    ((P.overlandFlowEvalDiff rPow .calcFcn ghostColumns columns s).axis ax).low (P.io c) =
      P.columnFlux rPow ax (c - ax.unit) := by
  refine (fcnFaces_axis ax _ hc).2.trans ?_
  rw [hp.fcnLoop_flux, ← hp.io_sub]
  exact replay_sweepLog_self hp.ghost_inj (hp.lowerFlux_low rPow ax) hprev _

/-- The column has no other one of the patch before it. -/
theorem fcn_low_first (hprev : c - ax.unit ∉ ghostColumns) :
    ((P.overlandFlowEvalDiff rPow .calcFcn ghostColumns columns s).axis ax).low (P.io c) =
      (P.lowerFlux rPow ax c).getD ((s.axis ax).flux (P.io c - P.step ax)) := by
  refine (fcnFaces_axis ax _ hc).2.trans ?_
  rw [hp.fcnLoop_flux]
  cases hv : P.lowerFlux rPow ax c with
  | some v => exact replay_sweepLog_lower hp.ghost_inj (hp.lowerFlux_low rPow ax) (hp.sub c hc) hv _
  | none =>
    refine replay_sweepLog_free hp.ghost_inj (hp.sub c hc) hv ?_ _
    intro c' hc' h
    have hprev' : c' = c - ax.unit := hp.prev_eq hc hc' (by rw [← h, sub_add_cancel])
    exact hprev (hprev' ▸ hc')

end TopPatch

/-! ## Derivatives -/

namespace TopPatch

variable (hp : P.TopPatch ghostColumns columns)

include hp

theorem der_axis : (P.overlandFlowEvalDiff rPow .calcDer ghostColumns columns s).axis ax =
    axisLoop P.io (P.step ax) (fun c => upperHigh rPow (P.view ax c) (P.columnRes rPow ax c))
      (fun c => upperLow rPow (P.view ax c) (P.columnRes rPow ax c)) (P.lowerFace rPow ax) columns (s.axis ax) :=
  foldl_hom_of_mem (fun s : DiffusiveState K => s.axis ax)
    (fun s c hc => derCell_axis rPow ax (hp.top c (hp.sub c hc)) s) s

omit [Field K] [LinearOrder K] in
theorem columns_inj : ∀ c ∈ columns, ∀ c' ∈ columns, P.io c = P.io c' → c = c' :=
  fun c hc c' hc' => hp.ghost_inj c (hp.sub c hc) c' (hp.sub c' hc')

theorem lowerFace_low : ∀ c ∈ columns, (P.lowerFace rPow ax c).isSome → ∀ c' ∈ columns, P.io c - P.step ax ≠ P.io c' := by
  intro c _ hsome c' hc'
  refine hp.before_ne ?_ (hp.sub c' hc')
  by_contra hk
  rw [lowerFace, if_neg hk] at hsome
  exact Bool.false_ne_true hsome

variable (hc : c ∈ columns)

include hc

theorem der_high : ((P.overlandFlowEvalDiff rPow .calcDer ghostColumns columns s).axis ax).high (P.io c) =
    upperHigh rPow (P.view ax c) (P.columnRes rPow ax c) := by
  rw [hp.der_axis]
  exact axisLoop_high _ hp.columns_inj (hp.lowerFace_low rPow ax) hc

theorem der_highVns : ((P.overlandFlowEvalDiff rPow .calcDer ghostColumns columns s).axis ax).highVns (P.io c) =
    upperLow rPow (P.view ax c) (P.columnRes rPow ax c) := by
  rw [hp.der_axis]
  exact axisLoop_highVns _ hp.columns_inj (hp.lowerFace_low rPow ax) hc

omit hc in
theorem der_prev (hprev : c - ax.unit ∈ columns) :
    let r := (P.overlandFlowEvalDiff rPow .calcDer ghostColumns columns s).axis ax
    r.low (P.io c) = upperLow rPow (P.view ax (c - ax.unit)) (P.columnRes rPow ax (c - ax.unit)) ∧
      r.lowVns (P.io c) = upperHigh rPow (P.view ax (c - ax.unit)) (P.columnRes rPow ax (c - ax.unit)) := by
  intro r
  have hio : P.io (c - ax.unit) + P.step ax = P.io c := by rw [hp.io_sub, sub_add_cancel]
  have hr : r = _ := hp.der_axis rPow ax s
  rw [hr]
  exact ⟨axisLoop_low_prev _ hp.columns_inj (hp.lowerFace_low rPow ax) hprev hio,
    axisLoop_lowVns_prev _ hp.columns_inj (hp.lowerFace_low rPow ax) hprev hio⟩

theorem der_bound (hk : P.k0 ax c < 0) :
    let r := (P.overlandFlowEvalDiff rPow .calcDer ghostColumns columns s).axis ax
    let b := if P.NoFlow ax c then noFlow else P.flowFace rPow ax c
    r.low (P.io c) = b.low ∧ r.lowVns (P.io c) = b.high.getD ((s.axis ax).high (P.io c - P.step ax)) := by
  intro r b
  have hb : P.lowerFace rPow ax c = some b := if_pos hk
  have hr : r = _ := hp.der_axis rPow ax s
  rw [hr]
  exact ⟨axisLoop_low_bound _ hp.columns_inj (hp.lowerFace_low rPow ax) hc hb,
    axisLoop_lowVns_bound _ hp.columns_inj (hp.lowerFace_low rPow ax) hc hb⟩

/-- The column before is active and not visited. -/
theorem der_free (hk : ¬ P.k0 ax c < 0) (hprev : c - ax.unit ∉ columns) :
    let r := (P.overlandFlowEvalDiff rPow .calcDer ghostColumns columns s).axis ax
    r.low (P.io c) = (s.axis ax).low (P.io c) ∧ r.lowVns (P.io c) = (s.axis ax).lowVns (P.io c) := by
  intro r
  have hb : P.lowerFace rPow ax c = none := if_neg hk
  have hfree : ∀ c' ∈ columns, P.io c' + P.step ax ≠ P.io c := fun c' hc' h =>
    hprev (hp.prev_eq hc (hp.sub c' hc') h ▸ hc')
  have hr : r = _ := hp.der_axis rPow ax s
  rw [hr]
  exact ⟨axisLoop_low_free _ hp.columns_inj hc hb hfree,
    axisLoop_lowVns_free _ hp.columns_inj (hp.lowerFace_low rPow ax) hc hb hfree⟩

end TopPatch

end DiffusiveData

end ParFlow
