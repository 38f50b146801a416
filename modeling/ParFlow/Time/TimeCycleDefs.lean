import ParFlow.Solver.RichardsDefs

/-! Time cycles (`time_cycle_data.c`): which interval of a cycle a time lies in, and when the next interval of any
cycle begins. Times are elements of an ordered field; `int`s are unbounded and their division truncates. `none`
stands for a read beyond an array of intervals. -/

namespace ParFlow

/-- One cycle of a `TimeCycleData`; the number of intervals is the length of the list. -/
structure TimeCycle where
  intervals : List ℤ
  repeatCount : ℤ
  cycleLength : ℤ
  deriving DecidableEq, Repr

abbrev TimeCycleData := List TimeCycle

def TimeCycle.intervalDivision (c : TimeCycle) : ℤ := c.intervals.length

structure TimingInfo (K : Type*) where
  baseTimeUnit : K
  startTime : K
  stopTime : K

/-- `while (intervals_completed >= total)`, from the interval number and the `total` before it on. -/
def intervalLoop (intervalsCompleted : ℤ) : List ℤ → ℤ → ℤ → Option (ℤ × ℤ)
  | [], _, _ => none
  | len :: rest, intervalNumber, total =>
    if intervalsCompleted ≥ total + len then intervalLoop intervalsCompleted rest (intervalNumber + 1) (total + len)
    else some (intervalNumber, total + len)

section

variable {K : Type*} [Field K] [LinearOrder K] [FloorRing K]

/-- A cast to `int`. -/
def toInt (x : K) : ℤ := if x < 0 then ⌈x⌉ else ⌊x⌋

def pfround (x : K) : ℤ := if x < 0 then toInt (x - 0.5) else toInt (x + 0.5)

def timeCycleSubdivisions : ℤ := 1000

namespace TimingInfo

variable (P : TimingInfo K)

/-- A time in base time units. -/
def discretizedTime (time : K) : ℤ :=
  (pfround (time / (P.baseTimeUnit / timeCycleSubdivisions))).tdiv timeCycleSubdivisions

/-- The discretized time since the start. -/
def elapsed (time : K) : ℤ := P.discretizedTime time - P.discretizedTime P.startTime

def intervalsCompleted (time : K) (c : TimeCycle) : ℤ := (P.elapsed time - 1).tmod c.cycleLength

/-- When a number of repeats are over, counted from time zero. -/
def repeatsEnd (c : TimeCycle) : K := c.repeatCount * c.cycleLength * P.baseTimeUnit

/-! ## The interval number -/

def intervalNumber (time : K) (c : TimeCycle) : Option ℤ :=
  if c.repeatCount < 0 ∨ time < P.repeatsEnd c then
    (intervalLoop (P.intervalsCompleted time c) c.intervals 0 0).map Prod.fst
  else some (c.intervalDivision - 1)

def timeCycleDataComputeIntervalNumber (time : K) (data : Option TimeCycleData) (cycleNumber : ℕ) : Option ℤ :=
  match data with
  | none => some (-1)
  | some cycles => cycles[cycleNumber]?.bind (P.intervalNumber time)

/-! ## The next transition -/

def timeDefined (c : TimeCycle) : K := if c.repeatCount > 0 then P.repeatsEnd c else P.stopTime

/-- The time a number of base time units after the start. -/
def unitsAfterStart (n : ℤ) : K := P.startTime + n * P.baseTimeUnit

/-- The end of the interval that a time lies in. -/
def transitionTime (time : K) (c : TimeCycle) : Option K :=
  let n := (P.elapsed time).tdiv c.cycleLength
  (intervalLoop (P.intervalsCompleted time c) c.intervals 0 0).map fun loop =>
    if (loop.1 + 1).tmod c.intervalDivision = 0 then P.unitsAfterStart ((n + 1) * c.cycleLength)
    else P.unitsAfterStart (n * c.cycleLength + loop.2)

/-- One round of the loop over the cycles; `none` is a `deltat` that is not assigned. -/
def nextTransitionStep (time : K) (deltat : Option K) (c : TimeCycle) : Option (Option K) :=
  if time < P.timeDefined c ∧ c.intervalDivision > 1 then
    (P.transitionTime time c).map fun transitionTime =>
      if transitionTime < P.timeDefined c then
        match deltat with
        | some deltat => some (min deltat (transitionTime - time))
        | none => some (transitionTime - time)
      else deltat
  else some deltat

def timeCycleDataComputeNextTransition (time : K) (data : Option TimeCycleData) : Option K :=
  ((data.getD []).foldlM (P.nextTransitionStep time) none).map fun deltat =>
    if time + deltat.getD (-1) - time ≤ timeEpsilon then -1 else deltat.getD (-1)

end TimingInfo

end

end ParFlow
