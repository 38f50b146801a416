import ParFlow.Lib.WriteLog
import ParFlow.Overland.DiffusiveDefs

/-! The derivatives of one direction: what the loop leaves in the four arrays at the columns it visits. -/

namespace ParFlow

open WriteLog

/-- What a column on a lower boundary writes: the derivative in the place before it, which may stay as it is, and
its own. -/
structure LowerFace (K : Type) where
  high : Option K
  low : K

variable {K : Type} {ι : Type}

/-- The writes of one column. -/
def axisWrite (io step : ℤ) (high low : K) (bound : Option (LowerFace K)) (a : AxisArrays K) : AxisArrays K :=
  let a := DiffusiveData.derUpperAxis io step high low a
  match bound with
  | none => a
  | some b =>
    { a with
      high := replay (b.high.map fun v => (io - step, v)).toList a.high
      low := Function.update a.low io b.low
      highVns := Function.update a.highVns (io - step) b.low
      lowVns := Function.update a.lowVns io (b.high.getD (a.high (io - step))) }

def axisLoop (io : ι → ℤ) (step : ℤ) (high low : ι → K) (bound : ι → Option (LowerFace K)) (columns : List ι)
    (a : AxisArrays K) : AxisArrays K :=
  columns.foldl (fun a c => axisWrite (io c) step (high c) (low c) (bound c) a) a

variable {io : ι → ℤ} {step : ℤ} {high low : ι → K} {bound : ι → Option (LowerFace K)} {columns : List ι}
  (a : AxisArrays K)

/-! ## The arrays as replays -/

theorem axisLoop_high_eq : (axisLoop io step high low bound columns a).high =
    replay (sweepLog io step high (fun c => (bound c).bind LowerFace.high) columns) a.high := by
  rw [sweepLog, ← foldl_replay]
  refine foldl_hom_of_mem AxisArrays.high ?_ a
  intro a c _
  cases hb : bound c with
  | none => rfl
  | some b => rfl

theorem axisLoop_low_eq : (axisLoop io step high low bound columns a).low =
    replay (sweepLog (fun c => io c + step) step low (fun c => (bound c).map LowerFace.low) columns) a.low := by
  rw [sweepLog, ← foldl_replay]
  refine foldl_hom_of_mem AxisArrays.low ?_ a
  intro a c _
  cases hb : bound c with
  | none => rfl
  | some b => simp [axisWrite, DiffusiveData.derUpperAxis]

theorem axisLoop_highVns_eq : (axisLoop io step high low bound columns a).highVns =
    replay (sweepLog io step low (fun c => (bound c).map LowerFace.low) columns) a.highVns := by
  rw [sweepLog, ← foldl_replay]
  refine foldl_hom_of_mem AxisArrays.highVns ?_ a
  intro a c _
  cases hb : bound c with
  | none => simp [axisWrite, DiffusiveData.derUpperAxis]
  | some b => simp [axisWrite, DiffusiveData.derUpperAxis]

section

variable (hinj : ∀ c ∈ columns, ∀ c' ∈ columns, io c = io c' → c = c')
  (hlow : ∀ c ∈ columns, (bound c).isSome → ∀ c' ∈ columns, io c - step ≠ io c')

include hinj hlow

/-- The place before a column that leaves it as it is. -/
theorem axisWrite_high_before {c : ι} {b : LowerFace K} (hc : c ∈ columns) (hb : bound c = some b) (hhigh : b.high = none)
    {j : ι} (hj : j ∈ columns) :
    (axisWrite (io j) step (high j) (low j) (bound j) a).high (io c - step) = a.high (io c - step) := by
  have heq : (axisWrite (io j) step (high j) (low j) (bound j) a).high =
      replay (sweepLog io step high (fun c => (bound c).bind LowerFace.high) [j]) a.high :=
    @axisLoop_high_eq K ι io step high low bound [j] a
  rw [heq]
  apply replay_of_notMem
  intro v hmem
  obtain ⟨c', hc', ⟨ha, -⟩ | ⟨ha, hlower⟩⟩ := mem_sweepLog.mp hmem
  · exact hlow c hc (hb ▸ rfl) c' (List.mem_singleton.mp hc' ▸ hj) ha
  · have hcc : c = c' := hinj c hc c' (List.mem_singleton.mp hc' ▸ hj) (sub_left_injective ha)
    subst hcc
    rw [hb, Option.bind_some, hhigh] at hlower
    exact Option.some_ne_none v hlower.symm

/-- A column that leaves the place before it as it is reads what was there before the loop. -/
theorem axisLoop_lowVns_eq : (axisLoop io step high low bound columns a).lowVns =
    replay (sweepLog (fun c => io c + step) step high
      (fun c => (bound c).map fun b => b.high.getD (a.high (io c - step))) columns) a.lowVns := by
  rw [sweepLog, ← foldl_replay]
  refine foldl_hom_of_inv AxisArrays.lowVns
    (fun s => ∀ c ∈ columns, ∀ b, bound c = some b → b.high = none → s.high (io c - step) = a.high (io c - step))
    ?_ ?_ (fun _ _ _ _ _ => rfl)
  · intro s hs j hj c hc b hb hhigh
    rw [axisWrite_high_before s hinj hlow hc hb hhigh hj]
    exact hs c hc b hb hhigh
  · intro s hs c hc
    cases hb : bound c with
    | none => simp [axisWrite, DiffusiveData.derUpperAxis]
    | some b =>
      have hne : io c - step ≠ io c := hlow c hc (hb ▸ rfl) c hc
      have hread : b.high.getD (Function.update s.high (io c) (high c) (io c - step)) =
          b.high.getD (a.high (io c - step)) := by
        rw [Function.update_of_ne hne]
        cases hhigh : b.high with
        | none => exact hs c hc b hb hhigh
        | some v => rfl
      simp [axisWrite, DiffusiveData.derUpperAxis, hread]

/-! ## The arrays at a column -/

variable {c : ι} (hc : c ∈ columns)

include hc

theorem axisLoop_high : (axisLoop io step high low bound columns a).high (io c) = high c := by
  rw [axisLoop_high_eq]
  refine replay_sweepLog_self hinj ?_ hc _
  intro i hi hsome
  obtain ⟨b, hb, -⟩ := Option.bind_eq_some_iff.mp (Option.eq_some_of_isSome hsome)
  exact hlow i hi (hb ▸ rfl)

theorem axisLoop_highVns : (axisLoop io step high low bound columns a).highVns (io c) = low c := by
  rw [axisLoop_highVns_eq]
  refine replay_sweepLog_self hinj ?_ hc _
  intro i hi hsome
  exact hlow i hi (Option.isSome_map ▸ hsome)

end

/-! ## The arrays that a column writes for the next one -/

section Shifted

variable (hinj : ∀ c ∈ columns, ∀ c' ∈ columns, io c = io c' → c = c') {own : ι → K} {lower : ι → Option K}
  (hlower : ∀ c ∈ columns, (lower c).isSome → ∀ c' ∈ columns, io c - step ≠ io c') {c : ι} (hc : c ∈ columns)

include hinj

theorem shift_inj : ∀ i ∈ columns, ∀ j ∈ columns, io i + step = io j + step → i = j :=
  fun i hi j hj h => hinj i hi j hj (add_right_cancel h)

include hc

theorem shifted_free (hnone : lower c = none) (hfree : ∀ c' ∈ columns, io c' + step ≠ io c) (d : ℤ → K) :
    replay (sweepLog (fun c => io c + step) step own lower columns) d (io c) = d (io c) := by
  have hplace : ∀ c' ∈ columns, io c + step - step ≠ io c' + step := by
    intro c' hc'
    rw [add_sub_cancel_right]
    exact (hfree c' hc').symm
  have h : replay (sweepLog (fun c => io c + step) step own lower columns) d (io c + step - step) =
      d (io c + step - step) := replay_sweepLog_free (shift_inj hinj) hc hnone hplace d
  rwa [add_sub_cancel_right] at h

include hlower

omit hinj hc in
theorem shift_lower : ∀ c ∈ columns, (lower c).isSome → ∀ c' ∈ columns, io c + step - step ≠ io c' + step := by
  intro i hi hsome j hj h
  rw [add_sub_cancel_right] at h
  exact hlower i hi hsome j hj (sub_eq_of_eq_add h)

omit hc in
theorem shifted_prev {c' : ι} (hc' : c' ∈ columns) (hprev : io c' + step = io c) (d : ℤ → K) :
    replay (sweepLog (fun c => io c + step) step own lower columns) d (io c) = own c' := by
  rw [← hprev]
  exact replay_sweepLog_self (shift_inj hinj) (shift_lower hlower) hc' d

theorem shifted_lower {v : K} (hv : lower c = some v) (d : ℤ → K) :
    replay (sweepLog (fun c => io c + step) step own lower columns) d (io c) = v := by
  have h : replay (sweepLog (fun c => io c + step) step own lower columns) d (io c + step - step) = v :=
    replay_sweepLog_lower (shift_inj hinj) (shift_lower hlower) hc hv d
  rwa [add_sub_cancel_right] at h

end Shifted

section

variable (hinj : ∀ c ∈ columns, ∀ c' ∈ columns, io c = io c' → c = c')
  (hlow : ∀ c ∈ columns, (bound c).isSome → ∀ c' ∈ columns, io c - step ≠ io c') {c : ι}

include hinj hlow

theorem axisLoop_low_prev {c' : ι} (hc' : c' ∈ columns) (hprev : io c' + step = io c) :
    (axisLoop io step high low bound columns a).low (io c) = low c' := by
  rw [axisLoop_low_eq]
  exact shifted_prev hinj (fun i hi h => hlow i hi (Option.isSome_map ▸ h)) hc' hprev _

theorem axisLoop_lowVns_prev {c' : ι} (hc' : c' ∈ columns) (hprev : io c' + step = io c) :
    (axisLoop io step high low bound columns a).lowVns (io c) = high c' := by
  rw [axisLoop_lowVns_eq a hinj hlow]
  exact shifted_prev hinj (fun i hi h => hlow i hi (Option.isSome_map ▸ h)) hc' hprev _

variable (hc : c ∈ columns)

include hc

theorem axisLoop_low_bound {b : LowerFace K} (hb : bound c = some b) :
    (axisLoop io step high low bound columns a).low (io c) = b.low := by
  rw [axisLoop_low_eq]
  exact shifted_lower hinj (fun i hi h => hlow i hi (Option.isSome_map ▸ h)) hc (by rw [hb, Option.map_some]) _

theorem axisLoop_lowVns_bound {b : LowerFace K} (hb : bound c = some b) :
    (axisLoop io step high low bound columns a).lowVns (io c) = b.high.getD (a.high (io c - step)) := by
  rw [axisLoop_lowVns_eq a hinj hlow]
  exact shifted_lower hinj (fun i hi h => hlow i hi (Option.isSome_map ▸ h)) hc (by rw [hb, Option.map_some]) _

variable (hb : bound c = none) (hfree : ∀ c' ∈ columns, io c' + step ≠ io c)

include hb hfree

omit hlow in
theorem axisLoop_low_free : (axisLoop io step high low bound columns a).low (io c) = a.low (io c) := by
  rw [axisLoop_low_eq]
  exact shifted_free hinj hc (by rw [hb, Option.map_none]) hfree _

theorem axisLoop_lowVns_free : (axisLoop io step high low bound columns a).lowVns (io c) = a.lowVns (io c) := by
  rw [axisLoop_lowVns_eq a hinj hlow]
  exact shifted_free hinj hc (by rw [hb, Option.map_none]) hfree _

end

end ParFlow

/-! The diffusive evaluation column by column: what the loops write, in terms of what each direction of a column reads. -/

namespace ParFlow

open WriteLog

/-- What one direction of a column reads: its slope, the extent of a column, and the depths of the column and of the
next one, now and at the last time step. -/
structure AxisView (K : Type) where
  slope : K
  d : K
  down : K
  up : K
  downo : K
  upo : K

variable {K : Type} [Field K] [LinearOrder K]

namespace AxisView

open DiffusiveData

variable (v : AxisView K)

def sf : K := frictionSlope v.slope v.up v.down v.d

def sfo : K := frictionSlope v.slope v.upo v.downo v.d

/-- The friction slope on a lower boundary, with the extent that it is divided by. -/
def sfLow (d : K) : K := frictionSlope v.slope v.down 0 d

def sfoLow (d : K) : K := frictionSlope v.slope v.downo 0 d

end AxisView

/-- The two directions of a plane. -/
inductive PlaneAxis where
  | x | y
  deriving DecidableEq, Repr

namespace PlaneAxis

def other : PlaneAxis → PlaneAxis
  | x => y
  | y => x

def unit : PlaneAxis → ℤ × ℤ
  | x => (1, 0)
  | y => (0, 1)

@[simp] theorem other_other (ax : PlaneAxis) : ax.other.other = ax := by cases ax <;> rfl

end PlaneAxis

def DiffusiveState.axis (s : DiffusiveState K) : PlaneAxis → AxisArrays K
  | .x => s.x
  | .y => s.y

namespace DiffusiveData

open scoped Numerals

variable (rPow : K → K → K) (P : DiffusiveData K) (ax : PlaneAxis) (c : ℤ × ℤ)

/-- The distance in the arrays between a column and the next one. -/
def step : ℤ := match ax with
  | .x => 1
  | .y => P.syV

/-- `k0x` and `k0y` -/
def k0 : ℤ := match ax with
  | .x => P.k0x c
  | .y => P.k0y c

def view : AxisView K := match ax with
  | .x => ⟨P.slopeX.data (P.io c), P.dx, P.depth (P.ip c), P.depth (P.ipp1 c), P.oldDepth (P.ip c), P.oldDepth (P.ipp1 c)⟩
  | .y => ⟨P.slopeY.data (P.io c), P.dy, P.depth (P.ip c), P.depth (P.ippsy c), P.oldDepth (P.ip c), P.oldDepth (P.ippsy c)⟩

def mann : K := P.mannings.data (P.io c)

/-- The resistance between a column and the next ones. -/
def upperRes (v w : AxisView K) (mann : K) : K := resistance rPow (P.sfMag rPow v.sfo w.sfo) mann

/-- The resistance on the lower boundary of the direction `v`. The column may also be on a lower boundary of the
other direction `w`. -/
def boundaryRes (v w : AxisView K) (dv dw : K) (corner : Prop) [Decidable corner] (mann : K) : K :=
  resistance rPow (P.sfMag rPow (v.sfoLow dv) (if corner then w.sfoLow dw else w.sfo)) mann

theorem sfMag_comm (a b : K) : P.sfMag rPow a b = P.sfMag rPow b a := by
  unfold sfMag
  rw [add_comm]

theorem upperRes_comm (v w : AxisView K) (mann : K) : P.upperRes rPow v w mann = P.upperRes rPow w v mann := by
  unfold upperRes
  rw [sfMag_comm]

theorem boundaryRes_corner {v w : AxisView K} {dv dw mann : K} {corner : Prop} [Decidable corner] (h : corner) :
    P.boundaryRes rPow v w dv dw corner mann = resistance rPow (P.sfMag rPow (v.sfoLow dv) (w.sfoLow dw)) mann := by
  unfold boundaryRes
  rw [if_pos h]

theorem boundaryRes_side {v w : AxisView K} {dv dw mann : K} {corner : Prop} [Decidable corner] (h : ¬ corner) :
    P.boundaryRes rPow v w dv dw corner mann = resistance rPow (P.sfMag rPow (v.sfoLow dv) w.sfo) mann := by
  unfold boundaryRes
  rw [if_neg h]

theorem boundaryRes_comm (v w : AxisView K) (dv dw : K) (corner : Prop) [Decidable corner] (mann : K) :
    P.boundaryRes rPow v w dv dw corner mann =
      resistance rPow (P.sfMag rPow (if corner then w.sfoLow dw else w.sfo) (v.sfoLow dv)) mann := by
  unfold boundaryRes
  rw [sfMag_comm]

/-! ## Values -/

def upperFlux (v : AxisView K) (res : K) : K := diffusiveFlux rPow v.sf res (upstreamMean (-v.sf) 0 v.down v.up)

/-- The flux through a lower boundary, if there is one. -/
def boundaryFlux (v w : AxisView K) (dv dw : K) (corner : Prop) [Decidable corner] (mann : K) : Option K :=
  if 0 < v.sfLow dv then some (diffusiveFlux rPow (v.sfLow dv) (P.boundaryRes rPow v w dv dw corner mann) v.down) else none

/-- The resistance of the column in both directions. -/
def columnRes : K := P.upperRes rPow (P.view ax c) (P.view ax.other c) (P.mann c)

def columnFlux : K := upperFlux rPow (P.view ax c) (P.columnRes rPow ax c)

/-- All extents are `dx`. -/
def lowerFlux : Option K :=
  if P.k0 ax c < 0 then
    P.boundaryFlux rPow (P.view ax c) (P.view ax.other c) P.dx P.dx (P.k0 ax.other c < 0) (P.mann c)
  else none

variable {P c} (hk : 0 ≤ P.k1 c) (s : DiffusiveState K)

include hk

theorem fcnCell_flux_x : (P.fcnCell rPow s c).x.flux = replay ((P.io c, P.columnFlux rPow .x c) ::
    ((P.lowerFlux rPow .x c).map fun v => (P.io c - 1, v)).toList) s.x.flux := by
  unfold fcnCell fcnUpper fcnLowerX fcnLowerY lowerFlux boundaryFlux
  rw [if_pos hk]
  simp only [k0, PlaneAxis.other]
  by_cases hx : P.k0x c < 0
  · by_cases hsf : 0 < (P.view .x c).sfLow P.dx
    · have hsf' : 0 < frictionSlope (P.slopeX.data (P.io c)) (P.depth (P.ip c)) 0 P.dx := hsf
      -- in a corner the second fix writes over the first one
      by_cases hy : P.k0y c < 0
      · simp only [hx, hy, hsf, hsf', if_true, and_self, Function.update_idem]
        rfl
      · simp only [hx, hy, hsf, hsf', if_true, if_false]
        rfl
    · have hsf' : ¬ 0 < frictionSlope (P.slopeX.data (P.io c)) (P.depth (P.ip c)) 0 P.dx := hsf
      by_cases hy : P.k0y c < 0
      · simp only [hx, hy, hsf, hsf', if_true, if_false, and_false]
        rfl
      · simp only [hx, hy, hsf, hsf', if_true, if_false]
        rfl
  · by_cases hy : P.k0y c < 0
    · simp only [hx, hy, if_true, if_false, false_and]
      rfl
    · simp only [hx, hy, if_false]
      rfl

theorem fcnCell_flux_y : (P.fcnCell rPow s c).y.flux = replay ((P.io c, P.columnFlux rPow .y c) ::
    ((P.lowerFlux rPow .y c).map fun v => (P.io c - P.syV, v)).toList) s.y.flux := by
  unfold fcnCell fcnUpper fcnLowerX fcnLowerY lowerFlux boundaryFlux columnFlux columnRes
  rw [if_pos hk, upperRes_comm, boundaryRes_comm]
  simp only [k0, PlaneAxis.other]
  by_cases hy : P.k0y c < 0
  · by_cases hsf : 0 < (P.view .y c).sfLow P.dx
    · have hsf' : 0 < frictionSlope (P.slopeY.data (P.io c)) (P.depth (P.ip c)) 0 P.dx := hsf
      by_cases hx : P.k0x c < 0
      · simp only [hx, hy, hsf, hsf', if_true]
        rfl
      · simp only [hx, hy, hsf, hsf', if_true, if_false]
        rfl
    · have hsf' : ¬ 0 < frictionSlope (P.slopeY.data (P.io c)) (P.depth (P.ip c)) 0 P.dx := hsf
      by_cases hx : P.k0x c < 0
      · simp only [hx, hy, hsf, hsf', if_true, if_false]
        rfl
      · simp only [hx, hy, hsf, hsf', if_true, if_false]
        rfl
  · by_cases hx : P.k0x c < 0
    · simp only [hx, hy, if_true, if_false]
      rfl
    · simp only [hx, hy, if_false]
      rfl

theorem fcnCell_flux : ((P.fcnCell rPow s c).axis ax).flux = replay ((P.io c, P.columnFlux rPow ax c) ::
    ((P.lowerFlux rPow ax c).map fun v => (P.io c - P.step ax, v)).toList) (s.axis ax).flux :=
  match ax with
  | .x => fcnCell_flux_x rPow hk s
  | .y => fcnCell_flux_y rPow hk s

omit hk

/-! ## Derivatives -/

variable (P c)

def upperHigh (v : AxisView K) (res : K) : K := derHigh rPow v.slope v.d v.sf res v.up v.down

def upperLow (v : AxisView K) (res : K) : K := derLow rPow v.slope v.d v.sf res v.up v.down

def lowerRes (v w : AxisView K) (corner : Prop) [Decidable corner] (mann : K) : K :=
  P.boundaryRes rPow v w v.d w.d corner mann

def lowerLow (v : AxisView K) (res : K) : K := derBoundary rPow v.slope v.d res v.down

def lowerHigh (v : AxisView K) (res : K) : K := rPow v.down (5 / 3) / (res * v.d)

/-- A lower boundary without flow. -/
def noFlow : LowerFace K := ⟨some 0, 0⟩

/-- The columns whose lower boundary counts as one without flow. A corner without flow in x has none in y. -/
def NoFlow : Prop := match ax with
  | .x => (P.view .x c).sfLow P.dx < 0
  | .y => (P.view .y c).sfLow P.dy < 0 ∨ P.k0x c < 0 ∧ (P.view .x c).sfLow P.dx < 0

instance : Decidable (P.NoFlow ax c) := match ax with
  | .x => inferInstanceAs (Decidable (_ < _))
  | .y => inferInstanceAs (Decidable (_ ∨ _))

/-- The derivative that a lower boundary with flow writes before its column. The array `kn_v` stays as it is. -/
def lowerHighOf (v : AxisView K) (res : K) : Option K := match ax with
  | .x => some (lowerHigh rPow v res)
  | .y => none

def flowFace : LowerFace K :=
  let res := P.lowerRes rPow (P.view ax c) (P.view ax.other c) (P.k0 ax.other c < 0) (P.mann c)
  ⟨lowerHighOf rPow ax (P.view ax c) res, lowerLow rPow (P.view ax c) res⟩

def lowerFace : Option (LowerFace K) :=
  if P.k0 ax c < 0 then some (if P.NoFlow ax c then noFlow else P.flowFace rPow ax c) else none

variable {P c}

include hk

theorem derCell_x : (P.derCell rPow s c).x =
    axisWrite (P.io c) 1 (upperHigh rPow (P.view .x c) (P.columnRes rPow .x c))
      (upperLow rPow (P.view .x c) (P.columnRes rPow .x c)) (P.lowerFace rPow .x c) s.x := by
  unfold derCell derUpper derLowerX derLowerY lowerFace
  rw [if_pos hk]
  simp only [k0, NoFlow]
  by_cases hx : P.k0x c < 0
  · by_cases hsf : (P.view .x c).sfLow P.dx < 0
    · have hsf' : frictionSlope (P.slopeX.data (P.io c)) (P.depth (P.ip c)) 0 P.dx < 0 := hsf
      by_cases hy : P.k0y c < 0
      · simp only [hx, hy, hsf, hsf', if_true, not_le.mpr hsf', and_false, if_false]
        rfl
      · simp only [hx, hy, hsf, hsf', if_true, if_false]
        rfl
    · have hsf' : ¬ frictionSlope (P.slopeX.data (P.io c)) (P.depth (P.ip c)) 0 P.dx < 0 := hsf
      -- in a corner the second fix writes over the first one
      by_cases hy : P.k0y c < 0
      · simp only [hx, hy, hsf, hsf', if_true, if_false, not_lt.mp hsf', and_self, derFlowX, Function.update_idem,
          Function.update_self, flowFace, k0, PlaneAxis.other]
        rfl
      · simp only [hx, hy, hsf, hsf', if_true, if_false, derFlowX, Function.update_self, flowFace, k0, PlaneAxis.other]
        rfl
  · by_cases hy : P.k0y c < 0
    · simp only [hx, hy, if_true, if_false, false_and]
      rfl
    · simp only [hx, hy, if_false]
      rfl

theorem derCell_y : (P.derCell rPow s c).y =
    axisWrite (P.io c) P.syV (upperHigh rPow (P.view .y c) (P.columnRes rPow .y c))
      (upperLow rPow (P.view .y c) (P.columnRes rPow .y c)) (P.lowerFace rPow .y c) s.y := by
  unfold derCell derUpper derLowerX derLowerY lowerFace columnRes flowFace lowerRes
  rw [if_pos hk, upperRes_comm, boundaryRes_comm]
  simp only [k0, NoFlow, PlaneAxis.other]
  by_cases hy : P.k0y c < 0
  · by_cases hx : P.k0x c < 0
    · by_cases hsfX : (P.view .x c).sfLow P.dx < 0
      · have hsfX' : frictionSlope (P.slopeX.data (P.io c)) (P.depth (P.ip c)) 0 P.dx < 0 := hsfX
        simp only [hx, hy, hsfX, hsfX', if_true, and_self, or_true]
        split_ifs
        · simp only [derNoFlow, Function.update_idem]
          rfl
        · simp only [derNoFlow, derFlowY, Function.update_idem]
          rfl
      · have hsfX' : ¬ frictionSlope (P.slopeX.data (P.io c)) (P.depth (P.ip c)) 0 P.dx < 0 := hsfX
        by_cases hsf : (P.view .y c).sfLow P.dy < 0
        · have hsf' : frictionSlope (P.slopeY.data (P.io c)) (P.depth (P.ip c)) 0 P.dy < 0 := hsf
          simp only [hx, hy, hsfX, hsfX', hsf, hsf', if_true, if_false, and_false, or_false]
          rfl
        · have hsf' : ¬ frictionSlope (P.slopeY.data (P.io c)) (P.depth (P.ip c)) 0 P.dy < 0 := hsf
          simp only [hx, hy, hsfX, hsfX', hsf, hsf', if_true, if_false, and_false, or_false, derFlowY, Function.update_idem,
            Function.update_self]
          rfl
    · by_cases hsf : (P.view .y c).sfLow P.dy < 0
      · have hsf' : frictionSlope (P.slopeY.data (P.io c)) (P.depth (P.ip c)) 0 P.dy < 0 := hsf
        simp only [hx, hy, hsf, hsf', if_true, if_false, false_and, or_false]
        rfl
      · have hsf' : ¬ frictionSlope (P.slopeY.data (P.io c)) (P.depth (P.ip c)) 0 P.dy < 0 := hsf
        simp only [hx, hy, hsf, hsf', if_true, if_false, false_and, or_false, derFlowY, Function.update_idem,
          Function.update_self]
        rfl
  · by_cases hx : P.k0x c < 0
    · simp only [hx, hy, if_true, if_false]
      rfl
    · simp only [hx, hy, if_false]
      rfl

theorem derCell_axis : (P.derCell rPow s c).axis ax =
    axisWrite (P.io c) (P.step ax) (upperHigh rPow (P.view ax c) (P.columnRes rPow ax c))
      (upperLow rPow (P.view ax c) (P.columnRes rPow ax c)) (P.lowerFace rPow ax c) (s.axis ax) :=
  match ax with
  | .x => derCell_x rPow hk s
  | .y => derCell_y rPow hk s

end DiffusiveData

end ParFlow
