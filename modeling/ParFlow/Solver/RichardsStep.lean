import ParFlow.Lib.ExceptLoop
import ParFlow.Solver.RichardsDefs

/-! One try of a time step. It starts from the time and the fields of the last accepted state, whatever the
tries before it did, and every clip makes the step smaller. -/

set_option linter.unusedSectionVars false

namespace ParFlow

open ExceptLoop

namespace RichardsProblem

variable {K V : Type*} [Field K] [LinearOrder K] [FloorRing K]
variable {P : RichardsProblem K V} {stopTime : K} {b s r : RichardsState K V}

/-! ## What the tries leave alone -/

/-- The state of the instance that no try changes. -/
structure Keeps (b s : RichardsState K V) : Prop where
  ct : s.ct = b.ct
  cdt : s.cdt = b.cdt
  dumpIndex : s.dumpIndex = b.dumpIndex
  iterationNumber : s.iterationNumber = b.iterationNumber
  fileNumber : s.fileNumber = b.fileNumber
  dumps : s.dumps = b.dumps

/-- Before a try: the first one finds time and fields as they are, the later ones find what the failed try
left. -/
structure BeforeTry (b s : RichardsState K V) : Prop where
  keeps : Keeps b s
  first : s.converged = true → s.t = b.t ∧ s.cur = b.cur
  later : s.converged = false → s.t = b.t + s.dt ∧ s.old = b.cur

/-- Before the solve: time and fields of the last accepted state. -/
structure BeforeSolve (b s : RichardsState K V) : Prop where
  keeps : Keeps b s
  t : s.t = b.t
  cur : s.cur = b.cur
  old : s.old = b.cur

/-- After a try: the result of the solver on a step of size `dt` from the last accepted state. -/
structure AfterTry (P : RichardsProblem K V) (b s r : RichardsState K V) : Prop where
  keeps : Keeps b r
  t : r.t = b.t + r.dt
  old : r.old = b.cur
  cur : r.cur = P.nonlinSolver s.solves
    ⟨{ b.cur with pressure := P.surfacePredictor s.solves r.dt b.cur }, b.cur, b.t + r.dt, r.dt⟩

theorem AfterTry.beforeTry (h : AfterTry P b s r) (hr : r.converged = false) : BeforeTry b r where
  keeps := h.keeps
  first := fun h' => absurd (h'.symm.trans hr) (by decide)
  later := fun _ => ⟨h.t, h.old⟩

theorem computeTimeStep_spec [IsStrictOrderedRing K] (hs : BeforeTry b s) (h : P.computeTimeStep s = .ok r) :
    BeforeSolve b r := by
  unfold computeTimeStep at h
  dsimp only at h
  split_ifs at h with hconv
  · obtain ⟨ht, hcur⟩ := hs.first hconv
    cases h
    exact ⟨⟨hs.keeps.1, hs.keeps.2, hs.keeps.3, hs.keeps.4, hs.keeps.5, hs.keeps.6⟩, ht, hcur, hcur⟩
  · obtain ⟨ht, hold⟩ := hs.later (Bool.eq_false_iff.mpr hconv)
    have hback : s.t - s.dt = b.t := by rw [ht, add_sub_cancel_right]
    cases h
    exact ⟨⟨hs.keeps.1, hs.keeps.2, hs.keeps.3, hs.keeps.4, hs.keeps.5, hs.keeps.6⟩, hback, hold, hold⟩

theorem computeTimeStep_counts (h : P.computeTimeStep s = .ok r) :
    r.solves = s.solves ∧ r.convFailures = s.convFailures := by
  unfold computeTimeStep at h
  dsimp only at h
  split_ifs at h
  · cases h
    exact ⟨rfl, rfl⟩
  · cases h
    exact ⟨rfl, rfl⟩

/-- A change of the step size, of its origin and of the dump flag. -/
theorem BeforeSolve.resize (hs : BeforeSolve b s) (d : K) (c : Char) (f : Bool) :
    BeforeSolve b { s with dt := d, dtInfo := c, dumpFiles := f } :=
  ⟨⟨hs.keeps.1, hs.keeps.2, hs.keeps.3, hs.keeps.4, hs.keeps.5, hs.keeps.6⟩, hs.t, hs.cur, hs.old⟩

theorem clipWhen_eq {c : Bool} (h : clipWhen c s = .ok r) : ∃ d, r = { s with dt := d } := by
  unfold clipWhen clipToLandSurface at h
  dsimp only at h
  split_ifs at h
  · cases h
    exact ⟨_, rfl⟩
  · cases h
    exact ⟨s.dt, rfl⟩
  · cases h
    exact ⟨s.dt, rfl⟩

theorem checkDump_eq (P : RichardsProblem K V) (s : RichardsState K V) :
    ∃ d c f, P.checkDump s = { s with dt := d, dtInfo := c, dumpFiles := f } := by
  unfold checkDump
  dsimp only
  split_ifs
  · exact ⟨_, _, _, rfl⟩
  · exact ⟨s.dt, _, _, rfl⟩
  · exact ⟨s.dt, s.dtInfo, _, rfl⟩
  · exact ⟨s.dt, s.dtInfo, _, rfl⟩
  · exact ⟨s.dt, s.dtInfo, _, rfl⟩

theorem checkStop_eq (stopTime : K) (s : RichardsState K V) :
    ∃ d c, checkStop stopTime s = { s with dt := d, dtInfo := c } := by
  unfold checkStop
  split_ifs
  · exact ⟨_, _, rfl⟩
  · exact ⟨s.dt, s.dtInfo, rfl⟩

theorem BeforeSolve.clipWhen {c : Bool} (hs : BeforeSolve b s) (h : clipWhen c s = .ok r) : BeforeSolve b r := by
  obtain ⟨d, rfl⟩ := clipWhen_eq h
  exact hs.resize d s.dtInfo s.dumpFiles

theorem BeforeSolve.checkDump (hs : BeforeSolve b s) (P : RichardsProblem K V) : BeforeSolve b (P.checkDump s) := by
  obtain ⟨d, c, f, h⟩ := P.checkDump_eq s
  rw [h]
  exact hs.resize d c f

theorem BeforeSolve.checkStop (hs : BeforeSolve b s) (stopTime : K) : BeforeSolve b (checkStop stopTime s) := by
  obtain ⟨d, c, h⟩ := checkStop_eq stopTime s
  rw [h]
  exact hs.resize d c s.dumpFiles

/-- The stages of a try. -/
theorem tryTimeStep_stages (h : P.tryTimeStep stopTime s = .ok r) :
    ∃ s₁ s₂ s₃, P.computeTimeStep s = .ok s₁ ∧ clipWhen (P.lsm = .clm) s₁ = .ok s₂ ∧
      clipWhen P.evapTransFileTransient s₂ = .ok s₃ ∧
      r = P.solveTimeStep (checkStop stopTime (P.checkDump s₃)) := by
  unfold tryTimeStep at h
  obtain ⟨s₁, h₁, h⟩ := exists_of_bind_ok h
  obtain ⟨s₂, h₂, h⟩ := exists_of_bind_ok h
  obtain ⟨s₃, h₃, h⟩ := exists_of_bind_ok h
  cases h
  exact ⟨s₁, s₂, s₃, h₁, h₂, h₃, rfl⟩

/-- Between the choice of the step and the solve only the step size and the dump flag change. -/
theorem tryTimeStep_eq (h : P.tryTimeStep stopTime s = .ok r) :
    ∃ s₁ d c f, P.computeTimeStep s = .ok s₁ ∧ r = P.solveTimeStep { s₁ with dt := d, dtInfo := c, dumpFiles := f } := by
  obtain ⟨s₁, s₂, s₃, h₁, h₂, h₃, rfl⟩ := tryTimeStep_stages h
  obtain ⟨d₂, rfl⟩ := clipWhen_eq h₂
  obtain ⟨d₃, rfl⟩ := clipWhen_eq h₃
  obtain ⟨d, c, f, hdump⟩ := P.checkDump_eq { s₁ with dt := d₃ }
  obtain ⟨d', c', hstop⟩ := checkStop_eq stopTime { s₁ with dt := d, dtInfo := c, dumpFiles := f }
  rw [hdump, hstop]
  exact ⟨s₁, d', c', f, h₁, rfl⟩

theorem tryTimeStep_spec [IsStrictOrderedRing K] (hs : BeforeTry b s) (h : P.tryTimeStep stopTime s = .ok r) :
    AfterTry P b s r := by
  obtain ⟨s₁, d, c, f, h₁, rfl⟩ := tryTimeStep_eq h
  have hready := (computeTimeStep_spec hs h₁).resize d c f
  have hsolves := (computeTimeStep_counts h₁).1
  unfold solveTimeStep
  constructor
  · exact ⟨hready.keeps.1, hready.keeps.2, hready.keeps.3, hready.keeps.4, hready.keeps.5, hready.keeps.6⟩
  · show s₁.t + d = b.t + d
    rw [show s₁.t = b.t from hready.t]
  · exact hready.old
  · show P.nonlinSolver s₁.solves (P.solverArgs { s₁ with dt := d, dtInfo := c, dumpFiles := f }) = _
    unfold solverArgs
    rw [hready.t, hready.cur, hready.old, hsolves]

theorem tryTimeStep_counts (h : P.tryTimeStep stopTime s = .ok r) :
    r.solves = s.solves + 1 ∧ r.converged = (P.retval s.solves == 0) ∧
      r.convFailures = if P.retval s.solves ≠ 0 then s.convFailures + 1 else s.convFailures := by
  obtain ⟨s₁, d, c, f, h₁, rfl⟩ := tryTimeStep_eq h
  obtain ⟨hsolves, hfailures⟩ := computeTimeStep_counts h₁
  rw [← hsolves, ← hfailures]
  exact ⟨rfl, rfl, rfl⟩

theorem tryTimeStep_failed (h : P.tryTimeStep stopTime s = .ok r) (hr : r.converged = false) :
    P.retval s.solves ≠ 0 ∧ r.convFailures = s.convFailures + 1 := by
  obtain ⟨-, hconv, hfailures⟩ := tryTimeStep_counts h
  have hret : P.retval s.solves ≠ 0 := by
    rw [hconv] at hr
    simpa using hr
  rw [if_pos hret] at hfailures
  exact ⟨hret, hfailures⟩

/-! ## The loop over the tries -/

/-- Within the loop: as many solves as failures, and all of them failed. -/
structure TryInv (P : RichardsProblem K V) (b s : RichardsState K V) : Prop where
  before : BeforeTry b s
  nonneg : 0 ≤ s.convFailures
  solves : (s.solves : ℤ) = b.solves + s.convFailures
  failed : ∀ n, b.solves ≤ n → n < s.solves → P.retval n ≠ 0

theorem tryInv_beginTimeStep (s : RichardsState K V) : TryInv P (beginTimeStep s) (beginTimeStep s) where
  before := ⟨⟨rfl, rfl, rfl, rfl, rfl, rfl⟩, fun _ => ⟨rfl, rfl⟩, fun h => absurd h (by simp [beginTimeStep])⟩
  nonneg := le_rfl
  solves := by simp [beginTimeStep]
  failed := fun n hn hn' => absurd hn' (not_lt.mpr hn)

theorem TryInv.step [IsStrictOrderedRing K] (hs : TryInv P b s) (h : P.tryTimeStep stopTime s = .ok r)
    (hr : r.converged = false) : TryInv P b r := by
  obtain ⟨hret, hfailures⟩ := tryTimeStep_failed h hr
  have hsolves := (tryTimeStep_counts h).1
  constructor
  · exact (tryTimeStep_spec hs.before h).beforeTry hr
  · rw [hfailures]
    exact Int.le_add_one hs.nonneg
  · rw [hsolves, hfailures, Nat.cast_succ, hs.solves]
    ring
  · intro n hn hn'
    rw [hsolves] at hn'
    rcases Nat.lt_succ_iff_lt_or_eq.mp hn' with hlt | rfl
    · exact hs.failed n hn hlt
    · exact hret

theorem converged_of_tryAgain (h : P.tryAgain s = true) : s.converged = false ∧ s.convFailures < P.maxConvergenceFailures := by
  unfold tryAgain at h
  simpa using h

/-- The last try of a time step starts in a state of the loop. -/
theorem exists_last_try [IsStrictOrderedRing K] (h : P.tryLoop stopTime (beginTimeStep s) = .ok r) :
    ∃ s', TryInv P (beginTimeStep s) s' ∧ P.tryTimeStep stopTime s' = .ok r :=
  DoWhile.exists_last_round (fun _ _ hs hbody hagain => hs.step hbody (converged_of_tryAgain hagain).1)
    (tryInv_beginTimeStep s) h

/-- The loop over the tries ends, and not by the bound of the model. -/
theorem tryAgain_tryLoop (h : P.tryLoop stopTime (beginTimeStep s) = .ok r) : P.tryAgain r = false := by
  apply DoWhile.again_eq_false (μ := fun s => (P.maxConvergenceFailures - s.convFailures).toNat) ?_ ?_ h
  · intro s s' hbody hagain
    obtain ⟨hconv, hmax⟩ := converged_of_tryAgain hagain
    have hfailures := (tryTimeStep_failed hbody hconv).2
    omega
  · show (P.maxConvergenceFailures - 0).toNat ≤ _
    rw [sub_zero]

/-- Some solve among the next `max_failures` ones converges, or the next one does. -/
def SomeConverges (P : RichardsProblem K V) (s : RichardsState K V) : Prop :=
  ∃ n : ℕ, (n : ℤ) < max 1 P.maxConvergenceFailures ∧ P.retval (s.solves + n) = 0

theorem converged_tryLoop [IsStrictOrderedRing K] (hs : P.SomeConverges s)
    (h : P.tryLoop stopTime (beginTimeStep s) = .ok r) : r.converged = true := by
  obtain ⟨s', hinv, hlast⟩ := exists_last_try h
  have hexit := tryAgain_tryLoop h
  by_contra hconv
  have hconv' := Bool.eq_false_iff.mpr hconv
  have hinv' := hinv.step hlast hconv'
  have hmax : P.maxConvergenceFailures ≤ r.convFailures := by
    by_contra hlt
    exact absurd hexit (by simp [tryAgain, hconv', not_le.mp hlt])
  have hone : 1 ≤ r.convFailures := by
    rw [(tryTimeStep_failed hlast hconv').2]
    exact Int.le_add_of_nonneg_left hinv.nonneg
  obtain ⟨n, hn, hret⟩ := hs
  apply hinv'.failed (s.solves + n) (Nat.le_add_right _ _) ?_ hret
  have hsolves : (r.solves : ℤ) = s.solves + r.convFailures := hinv'.solves
  omega

/-! ## One round of the time loop -/

theorem writeDump_eq (P : RichardsProblem K V) (s : RichardsState K V) :
    ∃ l n, P.writeDump s = { s with dumps := l, fileNumber := n } := by
  unfold writeDump
  split
  · exact ⟨_, _, rfl⟩
  · exact ⟨s.dumps, s.fileNumber, rfl⟩

theorem dumpTimeStep_eq (P : RichardsProblem K V) (s : RichardsState K V) :
    ∃ l n, P.dumpTimeStep s =
      { s with dumps := l, fileNumber := n, dumpIndex := if s.dumpFiles then s.dumpIndex + 1 else s.dumpIndex } := by
  obtain ⟨l, n, h⟩ := P.writeDump_eq s
  unfold dumpTimeStep
  rw [h]
  split_ifs
  · exact ⟨l, n, rfl⟩
  · exact ⟨s.dumps, s.fileNumber, rfl⟩

/-- What the rest of a round changes. -/
theorem finishTimeStep_eq (P : RichardsProblem K V) (stopTime : K) (s : RichardsState K V) :
    ∃ cur l n m, P.finishTimeStep stopTime s =
      { s with
        cur := cur, dumps := l, fileNumber := n, takeMoreTimeSteps := m, iterationNumber := s.iterationNumber + 1
        dumpIndex := if s.dumpFiles then s.dumpIndex + 1 else s.dumpIndex } := by
  obtain ⟨l, n, h⟩ := P.dumpTimeStep_eq (P.updateFields { s with iterationNumber := s.iterationNumber + 1 })
  unfold finishTimeStep
  rw [h]
  exact ⟨_, l, n, _, rfl⟩

theorem advanceTimeStep_eq (h : P.advanceTimeStep stopTime s = .ok r) :
    ∃ s', P.tryLoop stopTime (beginTimeStep s) = .ok s' ∧ r = P.finishTimeStep stopTime s' := by
  unfold advanceTimeStep at h
  obtain ⟨s', h', h⟩ := exists_of_bind_ok h
  cases h
  exact ⟨s', h', rfl⟩

theorem takeMoreTimeSteps_finish (h : (P.finishTimeStep stopTime s).takeMoreTimeSteps = true) :
    (P.finishTimeStep stopTime s).iterationNumber < P.maxIterations ∧ (P.finishTimeStep stopTime s).t < stopTime := by
  unfold finishTimeStep checkMore at h ⊢
  simp only [Bool.and_eq_true, decide_eq_true_eq] at h
  exact h.2

/-- The time loop ends, and not by the bound of the model. -/
theorem takeMoreTimeSteps_timeLoop [IsStrictOrderedRing K] (h : P.timeLoop stopTime s = .ok r) :
    r.takeMoreTimeSteps = false := by
  apply DoWhile.again_eq_false (μ := P.roundsLeft) ?_ le_rfl h
  intro s s' hbody hagain
  obtain ⟨s₁, htry, rfl⟩ := advanceTimeStep_eq hbody
  obtain ⟨s₂, hinv, hlast⟩ := exists_last_try htry
  have hnumber : s₁.iterationNumber = s.iterationNumber := (tryTimeStep_spec hinv.before hlast).keeps.iterationNumber
  have hmore := (takeMoreTimeSteps_finish hagain).1
  unfold roundsLeft
  obtain ⟨cur, l, n, m, hfinish⟩ := P.finishTimeStep_eq stopTime s₁
  rw [hfinish] at hmore ⊢
  dsimp only at hmore ⊢
  omega

end RichardsProblem

end ParFlow
