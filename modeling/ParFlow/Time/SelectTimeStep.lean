import ParFlow.Time.NextTransition

/-! The choice of a time step (`select_time_step.c`): a constant or growing step, cut down to the next transition of
the wells or of the boundary conditions. -/

namespace ParFlow

section Defs

variable {K : Type*}

/-- `Type0` and `Type1`. -/
inductive TimeStepType (K : Type*) where
  | constant (step : K)
  | growth (initialStep factor minStep maxStep : K)

variable [Field K] [LinearOrder K]

/-- The step before transitions are looked at. -/
def proposeTimeStep (type : TimeStepType K) (dt : K) : K :=
  match type with
  | .constant step => step
  | .growth initialStep factor minStep maxStep =>
    if dt = 0 then initialStep
    else
      let dt := dt * factor
      let dt := if dt < minStep then minStep else dt
      if dt > maxStep then maxStep else dt

/-- The step and `dt_info`, for the steps to the next transitions of wells and boundary conditions. -/
def limitTimeStep (dt wellDt bcDt : K) : K × Char :=
  let wellDt := if wellDt ≤ 0 then dt else wellDt
  let bcDt := if bcDt ≤ 0 then dt else bcDt
  if dt > wellDt then (wellDt, 'w')
  else if dt > bcDt then (bcDt, 'b')
  else (dt, 'p')

def selectTimeStep [FloorRing K] (type : TimeStepType K) (P : TimingInfo K) (time : K)
    (wellData bcPressureData : Option TimeCycleData) (dt : K) : Option (K × Char) := do
  let wellDt ← P.timeCycleDataComputeNextTransition time wellData
  let bcDt ← P.timeCycleDataComputeNextTransition time bcPressureData
  return limitTimeStep (proposeTimeStep type dt) wellDt bcDt

/-- The limits of a step, under the characters that name them; a step that is not positive limits nothing. -/
inductive IsLimit (dt wellDt bcDt : K) : Char → K → Prop
  | proposed : IsLimit dt wellDt bcDt 'p' dt
  | well : 0 < wellDt → IsLimit dt wellDt bcDt 'w' wellDt
  | boundary : 0 < bcDt → IsLimit dt wellDt bcDt 'b' bcDt

/-- The step is the least limit, and the one that is named. -/
structure RespectsLimits (dt wellDt bcDt : K) (r : K × Char) : Prop where
  isLeast : IsLeast {x | ∃ info, IsLimit dt wellDt bcDt info x} r.1
  named : IsLimit dt wellDt bcDt r.2 r.1

/-- The boundary conditions limit the step more than the wells, which limit it too. -/
def BoundaryBehindWell (dt wellDt bcDt : K) : Prop := 0 < bcDt ∧ bcDt < wellDt ∧ wellDt < dt

end Defs

section

variable {K : Type*} [Field K] [LinearOrder K] {dt wellDt bcDt : K} {r : K × Char}

/-- A limit that is named is the least one if it is not greater than any of the three. -/
theorem respectsLimits_of_le (hnamed : IsLimit dt wellDt bcDt r.2 r.1) (hdt : r.1 ≤ dt)
    (hwell : 0 < wellDt → r.1 ≤ wellDt) (hbc : 0 < bcDt → r.1 ≤ bcDt) : RespectsLimits dt wellDt bcDt r := by
  refine ⟨⟨⟨r.2, hnamed⟩, ?_⟩, hnamed⟩
  rintro x ⟨info, hx⟩
  cases hx with
  | proposed => exact hdt
  | well hpos => exact hwell hpos
  | boundary hpos => exact hbc hpos

theorem limitTimeStep_respects (h : ¬ BoundaryBehindWell dt wellDt bcDt) :
    RespectsLimits dt wellDt bcDt (limitTimeStep dt wellDt bcDt) := by
  have hbehind : 0 < bcDt → wellDt < dt → wellDt ≤ bcDt := by
    intro hpos hlt
    by_contra hgt
    exact h ⟨hpos, not_le.mp hgt, hlt⟩
  unfold limitTimeStep
  by_cases hwell : wellDt ≤ 0
  · by_cases hbc : bcDt ≤ 0
    · simp only [if_pos hwell, if_pos hbc, gt_iff_lt, lt_irrefl, if_false]
      exact respectsLimits_of_le .proposed le_rfl (fun hpos => absurd hpos (not_lt.mpr hwell))
        fun hpos => absurd hpos (not_lt.mpr hbc)
    · simp only [if_pos hwell, if_neg hbc, gt_iff_lt, lt_irrefl, if_false]
      split_ifs with hlt
      · exact respectsLimits_of_le (.boundary (not_le.mp hbc)) hlt.le (fun hpos => absurd hpos (not_lt.mpr hwell))
          fun _ => le_rfl
      · exact respectsLimits_of_le .proposed le_rfl (fun hpos => absurd hpos (not_lt.mpr hwell)) fun _ => not_lt.mp hlt
  · simp only [if_neg hwell, gt_iff_lt]
    by_cases hlt : wellDt < dt
    · rw [if_pos hlt]
      exact respectsLimits_of_le (.well (not_le.mp hwell)) hlt.le (fun _ => le_rfl) fun hpos => hbehind hpos hlt
    · by_cases hbc : bcDt ≤ 0
      · simp only [if_neg hlt, if_pos hbc, lt_irrefl, if_false]
        exact respectsLimits_of_le .proposed le_rfl (fun _ => not_lt.mp hlt) fun hpos => absurd hpos (not_lt.mpr hbc)
      · simp only [if_neg hlt, if_neg hbc]
        split_ifs with hlt'
        · exact respectsLimits_of_le (.boundary (not_le.mp hbc)) hlt'.le (fun _ => hlt'.le.trans (not_lt.mp hlt))
            fun _ => le_rfl
        · exact respectsLimits_of_le .proposed le_rfl (fun _ => not_lt.mp hlt) fun _ => not_lt.mp hlt'

theorem limitTimeStep_not_respects (h : BoundaryBehindWell dt wellDt bcDt) :
    ¬ RespectsLimits dt wellDt bcDt (limitTimeStep dt wellDt bcDt) := by
  obtain ⟨hbc, hless, hlt⟩ := h
  intro hrespects
  have hstep : limitTimeStep dt wellDt bcDt = (wellDt, 'w') := by
    unfold limitTimeStep
    rw [if_neg (not_le.mpr (hbc.trans hless)), if_pos hlt]
  rw [hstep] at hrespects
  exact absurd (hrespects.isLeast.2 ⟨'b', .boundary hbc⟩) (not_le.mpr hless)

theorem selectTimeStep_eq [FloorRing K] {type : TimeStepType K} {P : TimingInfo K} {time dt wellDt bcDt : K}
    {wellData bcPressureData : Option TimeCycleData}
    (hwell : P.timeCycleDataComputeNextTransition time wellData = some wellDt)
    (hbc : P.timeCycleDataComputeNextTransition time bcPressureData = some bcDt) :
    selectTimeStep type P time wellData bcPressureData dt =
      some (limitTimeStep (proposeTimeStep type dt) wellDt bcDt) := by
  unfold selectTimeStep
  rw [hwell, hbc]
  rfl

/-- The step returned respects its limits unless the boundary conditions stand behind the wells. -/
theorem selectTimeStep_respects_iff [FloorRing K] (type : TimeStepType K) (P : TimingInfo K) (time dt wellDt bcDt : K)
    (wellData bcPressureData : Option TimeCycleData)
    (hwell : P.timeCycleDataComputeNextTransition time wellData = some wellDt)
    (hbc : P.timeCycleDataComputeNextTransition time bcPressureData = some bcDt) :
    (∃ r, selectTimeStep type P time wellData bcPressureData dt = some r ∧
      RespectsLimits (proposeTimeStep type dt) wellDt bcDt r) ↔
      ¬ BoundaryBehindWell (proposeTimeStep type dt) wellDt bcDt := by
  rw [selectTimeStep_eq hwell hbc]
  constructor
  · rintro ⟨r, hr, hrespects⟩ hbehind
    cases hr
    exact limitTimeStep_not_respects hbehind hrespects
  · intro hbehind
    exact ⟨_, rfl, limitTimeStep_respects hbehind⟩

end

open TimingInfo in
/-- Boundary conditions that change after two base time units and wells after one; the first step of ten is cut down
to one. -/
theorem selectTimeStep_respects_wells :
    ∃ r, selectTimeStep (.constant (10 : ℚ)) fromZero 0 (some [⟨[1, 3], -1, 4⟩]) (some [onOff]) 0 = some r ∧
      RespectsLimits (proposeTimeStep (.constant 10) 0) 1 2 r :=
  (selectTimeStep_respects_iff (.constant 10) fromZero 0 0 1 2 (some [⟨[1, 3], -1, 4⟩]) (some [onOff])
    (by decide +kernel) (by decide +kernel)).mpr fun h => absurd h.2.1 (by decide)

open TimingInfo in
/-- The wells change after two base time units and the boundary conditions after one, but a step of ten is cut down
to two. -/
theorem selectTimeStep_not_respects : ¬ ∀ (type : TimeStepType ℚ) (P : TimingInfo ℚ) (time dt wellDt bcDt : ℚ)
    (wellData bcPressureData : Option TimeCycleData) (r : ℚ × Char),
    P.timeCycleDataComputeNextTransition time wellData = some wellDt →
    P.timeCycleDataComputeNextTransition time bcPressureData = some bcDt →
    selectTimeStep type P time wellData bcPressureData dt = some r →
    RespectsLimits (proposeTimeStep type dt) wellDt bcDt r := by
  intro h
  have hrespects := h (.constant 10) fromZero 0 0 2 1 (some [onOff]) (some [⟨[1, 3], -1, 4⟩]) (2, 'w')
    (by decide +kernel) (by decide +kernel) (by decide +kernel)
  have hleast : (2 : ℚ) ≤ 1 := hrespects.isLeast.2 ⟨'b', .boundary (by decide)⟩
  exact absurd hleast (by decide)

end ParFlow
