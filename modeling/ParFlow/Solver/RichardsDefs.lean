import ParFlow.Lib.FuelRun

/-! The time loop of `AdvanceRichards` (`solver_richards.c`, built with `HAVE_CLM`). Times are elements of an
ordered field. The modules that the loop invokes are given by what they return: the time step module and the
nonlinear solver by the number of the invocation, so that every sequence of step sizes and every pattern of
failures is one of them. -/

namespace ParFlow

structure RichardsFields (V : Type*) where
  pressure : V
  density : V
  saturation : V
  deriving DecidableEq, Repr

/-- What one invocation of the nonlinear solver is given. -/
structure NonlinSolverArgs (K V : Type*) where
  cur : RichardsFields V
  old : RichardsFields V
  t : K
  dt : K

inductive LandSurfaceModel where
  | none | clm
  deriving DecidableEq, Repr

/-- The input of the time loop and the modules it invokes. -/
structure RichardsProblem (K V : Type*) where
  startTime : K
  startCount : ℤ
  dumpInterval : K
  dumpAtEnd : Bool
  maxIterations : ℤ
  maxConvergenceFailures : ℤ
  lsm : LandSurfaceModel
  evapTransFileTransient : Bool
  printPress : Bool
  printSatur : Bool
  selectTimeStep : ℕ → K × Char
  surfacePredictor : ℕ → K → RichardsFields V → V
  retval : ℕ → ℤ
  nonlinSolver : ℕ → NonlinSolverArgs K V → RichardsFields V
  -- `spinup` and `reset_surface_pressure`
  adjustPressure : V → V
  phaseDensity : V → V
  problemSaturation : V → V → V

/-- Pressure and saturation written to files of one number. -/
structure RichardsDump (K V : Type*) where
  fileNumber : ℤ
  time : K
  pressure : Option V
  saturation : Option V
  deriving DecidableEq, Repr

structure RichardsState (K V : Type*) where
  t : K
  ct : K
  cdt : K
  dt : K
  dtInfo : Char
  converged : Bool
  convFailures : ℤ
  dumpFiles : Bool
  dumpIndex : ℕ
  iterationNumber : ℤ
  fileNumber : ℤ
  takeMoreTimeSteps : Bool
  cur : RichardsFields V
  old : RichardsFields V
  dumps : List (RichardsDump K V)
  -- invocations so far of the time step module and of the nonlinear solver
  selects : ℕ
  solves : ℕ
  deriving DecidableEq, Repr

section

variable {K V : Type*} [Field K] [LinearOrder K] [FloorRing K]

/-- `TIME_EPSILON`, ten times `FLT_EPSILON`. -/
def timeEpsilon : K := 1 / 2 ^ 23 * 10

namespace RichardsProblem

variable (P : RichardsProblem K V) (stopTime : K)

/-! ## One try of a time step -/

/-- After a step that converged a new step size is asked for; after one that did not, time and fields go back
and the step is halved. -/
def computeTimeStep (s : RichardsState K V) : Except String (RichardsState K V) :=
  if s.converged then
    .ok { s with
      dt := (P.selectTimeStep s.selects).1, dtInfo := (P.selectTimeStep s.selects).2, selects := s.selects + 1,
      old := s.cur }
  else
    let t := s.t - s.dt
    let newDt := 1 / 2 * s.dt
    if t + newDt - t > timeEpsilon then
      .ok { s with t := t, dt := newDt, cur := s.old }
    else
      .error "Time increment is too small; solver has failed\n"

/-- No step beyond the time `ct` of the land surface model. -/
def clipToLandSurface (s : RichardsState K V) : Except String (RichardsState K V) :=
  if s.t + s.dt > s.ct then
    let newDt := s.ct - s.t
    if s.t + newDt - s.t > timeEpsilon then
      .ok { s with dt := newDt }
    else
      .error "Time increment is too small; CLM wants a small timestep\n"
  else
    .ok s

def clipWhen (c : Bool) (s : RichardsState K V) : Except String (RichardsState K V) :=
  if c then clipToLandSurface s else .ok s

/-- `print_dt`, the time left to the next dump. -/
def printDt (s : RichardsState K V) : K := P.startTime + s.dumpIndex * P.dumpInterval - s.t

/-- Whether this step dumps, with its size changed to end at the dump. -/
def checkDump (s : RichardsState K V) : RichardsState K V :=
  if P.dumpInterval > 0 then
    let printDt := P.printDt s
    if s.dt + timeEpsilon > printDt then
      { s with
        dt := if |s.dt - printDt| > timeEpsilon then printDt else s.dt
        dtInfo := 'p'
        dumpFiles := true }
    else
      { s with dumpFiles := false }
  else if P.dumpInterval < 0 then
    -- `(int)dump_interval` rounds a negative number up
    { s with dumpFiles := s.iterationNumber.tmod (-⌈P.dumpInterval⌉) == 0 }
  else
    { s with dumpFiles := false }

def checkStop (s : RichardsState K V) : RichardsState K V :=
  if s.t + s.dt ≥ stopTime then { s with dt := stopTime - s.t, dtInfo := 'f' } else s

/-- The arguments of the solver after `t += dt` and the predictor of land surface pressures. -/
def solverArgs (s : RichardsState K V) : NonlinSolverArgs K V where
  cur := { s.cur with pressure := P.surfacePredictor s.solves s.dt s.cur }
  old := s.old
  t := s.t + s.dt
  dt := s.dt

def solveTimeStep (s : RichardsState K V) : RichardsState K V :=
  let convFailures := if P.retval s.solves ≠ 0 then s.convFailures + 1 else s.convFailures
  { s with
    t := s.t + s.dt
    cur := P.nonlinSolver s.solves (P.solverArgs s)
    converged := P.retval s.solves == 0
    convFailures := convFailures
    takeMoreTimeSteps := s.takeMoreTimeSteps && decide (convFailures < P.maxConvergenceFailures)
    solves := s.solves + 1 }

/-- One round of the loop over the tries of a time step. -/
def tryTimeStep (s : RichardsState K V) : Except String (RichardsState K V) := do
  let s ← P.computeTimeStep s
  let s ← clipWhen (P.lsm = .clm) s
  let s ← clipWhen P.evapTransFileTransient s
  return P.solveTimeStep (checkStop stopTime (P.checkDump s))

def tryAgain (s : RichardsState K V) : Bool := !s.converged && decide (s.convFailures < P.maxConvergenceFailures)

/-! ## The time loop -/

def beginTimeStep (s : RichardsState K V) : RichardsState K V :=
  { s with ct := if s.t = s.ct then s.ct + s.cdt else s.ct, converged := true, convFailures := 0 }

/-- The loop over the tries. Every try but the last one raises `conv_failures`. -/
def tryLoop (s : RichardsState K V) : Except String (RichardsState K V) :=
  DoWhile.run (P.tryTimeStep stopTime) P.tryAgain P.maxConvergenceFailures.toNat s

/-- Density and saturation for the pressure of the step. -/
def updateFields (s : RichardsState K V) : RichardsState K V :=
  let pressure := P.adjustPressure s.cur.pressure
  let density := P.phaseDensity pressure
  { s with cur := ⟨pressure, density, P.problemSaturation pressure density⟩ }

/-- The files of one dump. -/
def writeDump (s : RichardsState K V) : RichardsState K V :=
  if P.printPress || P.printSatur then
    { s with
      dumps := s.dumps ++ [⟨s.fileNumber, s.t, if P.printPress then some s.cur.pressure else none,
        if P.printSatur then some s.cur.saturation else none⟩]
      fileNumber := s.fileNumber + 1 }
  else
    s

def dumpTimeStep (s : RichardsState K V) : RichardsState K V :=
  if s.dumpFiles then { P.writeDump s with dumpIndex := s.dumpIndex + 1 } else s

def checkMore (s : RichardsState K V) : RichardsState K V :=
  { s with takeMoreTimeSteps :=
      s.takeMoreTimeSteps && (decide (s.iterationNumber < P.maxIterations) && decide (s.t < stopTime)) }

/-- What follows the loop over the tries in a round of the time loop. -/
def finishTimeStep (s : RichardsState K V) : RichardsState K V :=
  P.checkMore stopTime (P.dumpTimeStep (P.updateFields { s with iterationNumber := s.iterationNumber + 1 }))

/-- One round of the time loop. -/
def advanceTimeStep (s : RichardsState K V) : Except String (RichardsState K V) := do
  let s ← P.tryLoop stopTime (beginTimeStep s)
  return P.finishTimeStep stopTime s

/-- The state in which the time loop is entered; `dump_index`, `iteration_number` and `file_number` are those of
the instance. -/
def beginAdvance (startTime : K) (dumpIndex : ℕ) (iterationNumber fileNumber : ℤ) (cur old : RichardsFields V) :
    RichardsState K V where
  t := startTime
  ct := startTime
  cdt := (P.selectTimeStep 0).1
  dt := (P.selectTimeStep 0).1
  dtInfo := (P.selectTimeStep 0).2
  converged := true
  convFailures := 0
  dumpFiles := false
  dumpIndex := dumpIndex
  iterationNumber := iterationNumber
  fileNumber := fileNumber
  takeMoreTimeSteps := decide (0 ≤ P.startCount)
  cur := cur
  old := old
  dumps := []
  selects := 1
  solves := 0

/-- Rounds left before `max_iterations`. -/
def roundsLeft (s : RichardsState K V) : ℕ := (P.maxIterations - s.iterationNumber).toNat

/-- The states at the ends of the rounds of the time loop. -/
def timeSteps (s : RichardsState K V) : List (RichardsState K V) :=
  DoWhile.rounds (P.advanceTimeStep stopTime) RichardsState.takeMoreTimeSteps (P.roundsLeft s) s

def timeLoop (s : RichardsState K V) : Except String (RichardsState K V) :=
  DoWhile.run (P.advanceTimeStep stopTime) RichardsState.takeMoreTimeSteps (P.roundsLeft s) s

/-- The time loop and the dump at its end. -/
def advanceRichards (s : RichardsState K V) : Except String (RichardsState K V) := do
  let s ← P.timeLoop stopTime s
  return if P.dumpAtEnd then P.writeDump s else s

end RichardsProblem

end

end ParFlow
