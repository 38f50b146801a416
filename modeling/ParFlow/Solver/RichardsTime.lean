import ParFlow.Solver.RichardsStep

/-! The times of the accepted steps: they increase to the stop time, stay below the time of the land surface
model and meet every scheduled dump. -/

set_option linter.unusedSectionVars false

namespace ParFlow

open ExceptLoop

section

variable {K V : Type*} [Field K] [LinearOrder K] [FloorRing K] [IsStrictOrderedRing K]

theorem timeEpsilon_pos : (0 : K) < timeEpsilon := by
  unfold timeEpsilon
  positivity

namespace RichardsProblem

variable {P : RichardsProblem K V} {stopTime : K} {b s s' r : RichardsState K V}

/-- The time of the dump of index `k`. -/
def scheduledTime (P : RichardsProblem K V) (k : ℕ) : K := P.startTime + k * P.dumpInterval

/-! ## The size of a step -/

theorem computeTimeStep_pos (hselect : ∀ n, 0 < (P.selectTimeStep n).1) (h : P.computeTimeStep s = .ok r) :
    0 < r.dt := by
  unfold computeTimeStep at h
  dsimp only at h
  split_ifs at h with hconv hbig
  · cases h
    exact hselect s.selects
  · cases h
    rw [gt_iff_lt, add_sub_cancel_left] at hbig
    exact timeEpsilon_pos.trans hbig

theorem clipWhen_dt {c : Bool} (hs : 0 < s.dt) (h : clipWhen c s = .ok r) :
    0 < r.dt ∧ (c = true → r.t + r.dt ≤ r.ct) ∧ (s.t + s.dt ≤ s.ct → r.t + r.dt ≤ r.ct) := by
  unfold clipWhen clipToLandSurface at h
  dsimp only at h
  split_ifs at h with hc hct hbig
  · cases h
    rw [gt_iff_lt, add_sub_cancel_left] at hbig
    have hend : s.t + (s.ct - s.t) ≤ s.ct := by rw [add_sub_cancel]
    exact ⟨timeEpsilon_pos.trans hbig, fun _ => hend, fun _ => hend⟩
  · cases h
    exact ⟨hs, fun _ => not_lt.mp hct, fun h => h⟩
  · cases h
    exact ⟨hs, fun hc' => absurd hc' hc, fun h => h⟩

/-- The step ends within the epsilon of the dump, or at least an epsilon before it. -/
def MeetsDump (P : RichardsProblem K V) (s : RichardsState K V) : Prop :=
  if s.dumpFiles then |s.dt - P.printDt s| ≤ timeEpsilon else s.dt + timeEpsilon ≤ P.printDt s

theorem checkDump_dt (hint : 0 < P.dumpInterval) (hprint : 0 < P.printDt s) (hs : 0 < s.dt) :
    0 < (P.checkDump s).dt ∧ (P.checkDump s).dt ≤ s.dt ∧ P.MeetsDump (P.checkDump s) := by
  unfold checkDump
  dsimp only
  rw [if_pos hint]
  split_ifs with hnear hfar
  · -- the step is longer than the time left, so that ending at the dump makes it shorter
    have hlong : P.printDt s ≤ s.dt := by
      rcases abs_cases (s.dt - P.printDt s) with ⟨habs, _⟩ | ⟨habs, _⟩
      · linarith
      · rw [gt_iff_lt, habs] at hfar
        linarith
    refine ⟨hprint, hlong, ?_⟩
    show |P.printDt s - P.printDt s| ≤ timeEpsilon
    rw [sub_self, abs_zero]
    exact timeEpsilon_pos.le
  · exact ⟨hs, le_rfl, not_lt.mp hfar⟩
  · exact ⟨hs, le_rfl, not_lt.mp hnear⟩

theorem checkStop_dt (hstop : s.t < stopTime) (hs : 0 < s.dt) :
    0 < (checkStop stopTime s).dt ∧ (checkStop stopTime s).dt ≤ s.dt ∧ s.t + (checkStop stopTime s).dt ≤ stopTime ∧
      ((checkStop stopTime s).dt = s.dt ∨ s.t + (checkStop stopTime s).dt = stopTime) := by
  unfold checkStop
  split_ifs with hlast
  · have hend : s.t + (stopTime - s.t) = stopTime := add_sub_cancel s.t stopTime
    exact ⟨sub_pos.mpr hstop, by linarith, hend.le, .inr hend⟩
  · exact ⟨hs, le_rfl, (not_le.mp hlast).le, .inl rfl⟩

/-! ## The end of a try -/

/-- The time of a try that starts at `b`. -/
structure InTime (P : RichardsProblem K V) (stopTime : K) (b r : RichardsState K V) : Prop where
  later : b.t < r.t
  stop : r.t ≤ stopTime
  landSurface : P.lsm = .clm → r.t ≤ r.ct
  noDump : r.dumpFiles = false → r.t + timeEpsilon ≤ P.scheduledTime b.dumpIndex
  dump_le : r.dumpFiles = true → r.t ≤ P.scheduledTime b.dumpIndex + timeEpsilon
  dump_ge : r.dumpFiles = true → P.scheduledTime b.dumpIndex - timeEpsilon ≤ r.t ∨ r.t = stopTime

theorem BeforeSolve.printDt_eq (hs : BeforeSolve b s) : P.printDt s = P.scheduledTime b.dumpIndex - b.t := by
  unfold printDt scheduledTime
  rw [hs.t, hs.keeps.dumpIndex]

theorem dumpFiles_checkStop (stopTime : K) (s : RichardsState K V) : (checkStop stopTime s).dumpFiles = s.dumpFiles := by
  obtain ⟨d, c, h⟩ := checkStop_eq stopTime s
  rw [h]

theorem tryTimeStep_inTime (hselect : ∀ n, 0 < (P.selectTimeStep n).1) (hint : 0 < P.dumpInterval)
    (hstop : b.t < stopTime) (hdump : b.t < P.scheduledTime b.dumpIndex) (hs : BeforeTry b s)
    (h : P.tryTimeStep stopTime s = .ok r) : InTime P stopTime b r := by
  obtain ⟨s₁, s₂, s₃, h₁, h₂, h₃, rfl⟩ := tryTimeStep_stages h
  have hready₁ := computeTimeStep_spec hs h₁
  have hready₃ := (hready₁.clipWhen h₂).clipWhen h₃
  have hready₄ := hready₃.checkDump P
  have hready := hready₄.checkStop stopTime
  obtain ⟨hpos₂, hct₂, -⟩ := clipWhen_dt (computeTimeStep_pos hselect h₁) h₂
  obtain ⟨hpos₃, -, hct₃⟩ := clipWhen_dt hpos₂ h₃
  have hprint : 0 < P.printDt s₃ := by
    rw [hready₃.printDt_eq]
    exact sub_pos.mpr hdump
  obtain ⟨hpos₄, hle₄, hmeets⟩ := checkDump_dt hint hprint hpos₃
  obtain ⟨hpos, hle, hend, hlast⟩ := checkStop_dt (by rw [hready₄.t]; exact hstop) hpos₄
  unfold MeetsDump at hmeets
  rw [hready₄.printDt_eq, ← dumpFiles_checkStop stopTime] at hmeets
  rw [hready₄.t] at hend hlast
  -- the solve only adds the step to the time
  generalize checkStop stopTime (P.checkDump s₃) = s₅ at hready hpos hle hend hlast hmeets ⊢
  generalize P.checkDump s₃ = s₄ at hle₄ hle hlast hmeets
  have ht : (P.solveTimeStep s₅).t = b.t + s₅.dt := by
    show s₅.t + s₅.dt = b.t + s₅.dt
    rw [hready.t]
  have hflag : (P.solveTimeStep s₅).dumpFiles = s₅.dumpFiles := rfl
  constructor
  · rw [ht]
    exact lt_add_of_pos_right b.t hpos
  · rw [ht]
    exact hend
  · intro hlsm
    have hclip := hct₃ (hct₂ (decide_eq_true hlsm))
    rw [hready₃.t, hready₃.keeps.ct] at hclip
    show (P.solveTimeStep s₅).t ≤ s₅.ct
    rw [ht, hready.keeps.ct]
    linarith
  · intro hf
    rw [hflag] at hf
    rw [ht]
    rw [if_neg (by rw [hf]; decide)] at hmeets
    linarith
  · intro hf
    rw [hflag] at hf
    rw [ht]
    rw [if_pos hf, abs_le] at hmeets
    linarith [hmeets.2]
  · intro hf
    rw [hflag] at hf
    rw [ht]
    rw [if_pos hf, abs_le] at hmeets
    rcases hlast with hsame | hlast
    · exact .inl (by linarith [hmeets.1])
    · exact .inr hlast

/-! ## Runs of the time loop -/

/-- Between two rounds: time is left, and the next dump is ahead. -/
structure TimeInv (P : RichardsProblem K V) (stopTime : K) (s : RichardsState K V) : Prop where
  stop : s.t < stopTime
  dump : s.t < P.scheduledTime s.dumpIndex

/-- A round of the time loop from `s` to `s'`. -/
structure AcceptsStep (P : RichardsProblem K V) (stopTime : K) (s s' : RichardsState K V) : Prop where
  converged : s'.converged = true
  time : InTime P stopTime s s'
  dumpIndex : s'.dumpIndex = if s'.dumpFiles then s.dumpIndex + 1 else s.dumpIndex

theorem scheduledTime_succ (P : RichardsProblem K V) (k : ℕ) :
    P.scheduledTime (k + 1) = P.scheduledTime k + P.dumpInterval := by
  unfold scheduledTime
  push_cast
  ring

theorem AcceptsStep.dump_ahead (h : AcceptsStep P stopTime s s') (hint : 2 * timeEpsilon < P.dumpInterval) :
    s'.t < P.scheduledTime s'.dumpIndex := by
  have heps := timeEpsilon_pos (K := K)
  rw [h.dumpIndex]
  cases hf : s'.dumpFiles with
  | false =>
    have := h.time.noDump hf
    rw [if_neg (by decide)]
    linarith
  | true =>
    have := h.time.dump_le hf
    rw [if_pos rfl, scheduledTime_succ]
    linarith

section

variable (hselect : ∀ n, 0 < (P.selectTimeStep n).1) (hint : 2 * timeEpsilon < P.dumpInterval)
  (hsolve : ∀ n, ∃ j : ℕ, (j : ℤ) < P.maxConvergenceFailures ∧ P.retval (n + j) = 0)

include hselect hint hsolve

theorem TimeInv.acceptsStep (hs : TimeInv P stopTime s) (h : P.advanceTimeStep stopTime s = .ok s') :
    AcceptsStep P stopTime s s' := by
  have heps := timeEpsilon_pos (K := K)
  obtain ⟨s₁, htry, rfl⟩ := advanceTimeStep_eq h
  obtain ⟨s₂, hinv, hlast⟩ := exists_last_try htry
  have hconv : s₁.converged = true := by
    obtain ⟨j, hj, hret⟩ := hsolve s.solves
    exact converged_tryLoop ⟨j, lt_max_of_lt_right hj, hret⟩ htry
  have htime := tryTimeStep_inTime (b := beginTimeStep s) hselect (by linarith) hs.stop hs.dump hinv.before hlast
  have hindex : s₁.dumpIndex = s.dumpIndex := (tryTimeStep_spec hinv.before hlast).keeps.dumpIndex
  obtain ⟨cur, l, n, m, hfinish⟩ := P.finishTimeStep_eq stopTime s₁
  rw [hfinish, hindex]
  exact ⟨hconv, ⟨htime.1, htime.2, htime.3, htime.4, htime.5, htime.6⟩, rfl⟩

theorem TimeInv.step (hs : TimeInv P stopTime s) (h : P.advanceTimeStep stopTime s = .ok s')
    (hmore : s'.takeMoreTimeSteps = true) : TimeInv P stopTime s' := by
  have haccepts := hs.acceptsStep hselect hint hsolve h
  obtain ⟨s₁, htry, rfl⟩ := advanceTimeStep_eq h
  exact ⟨(takeMoreTimeSteps_finish hmore).2, haccepts.dump_ahead hint⟩

theorem isChain_timeSteps (hs : TimeInv P stopTime s) :
    List.IsChain (AcceptsStep P stopTime) (s :: P.timeSteps stopTime s) :=
  DoWhile.isChain_rounds (fun _ _ hs h => hs.acceptsStep hselect hint hsolve h)
    (fun _ _ hs h hmore => hs.step hselect hint hsolve h hmore) hs _

end

theorem pairwise_time {l : List (RichardsState K V)} (hl : List.IsChain (AcceptsStep P stopTime) l) :
    l.Pairwise fun a b => a.t < b.t := by
  have htrans : IsTrans (RichardsState K V) fun a b => a.t < b.t := ⟨fun _ _ _ h h' => h.trans h'⟩
  apply List.isChain_iff_pairwise.mp
  exact hl.imp fun a b h => h.time.later

/-- A later dump has a higher index. -/
theorem pairwise_dumpIndex {l : List (RichardsState K V)} (hl : List.IsChain (AcceptsStep P stopTime) l) :
    l.Pairwise fun a b => (a.dumpIndex + if b.dumpFiles then 1 else 0) ≤ b.dumpIndex := by
  have htrans : IsTrans (RichardsState K V) fun a b => (a.dumpIndex + if b.dumpFiles then 1 else 0) ≤ b.dumpIndex :=
    ⟨fun _ _ _ h h' => by omega⟩
  apply List.isChain_iff_pairwise.mp
  apply hl.imp
  intro a b h
  rw [h.dumpIndex]
  split_ifs
  · exact le_rfl
  · exact le_rfl

theorem dump_unique {l : List (RichardsState K V)} (hl : List.IsChain (AcceptsStep P stopTime) l) (hs : s ∈ l)
    (hs' : s' ∈ l) (hf : s.dumpFiles = true) (hf' : s'.dumpFiles = true) (h : s.dumpIndex = s'.dumpIndex) : s = s' := by
  let R : RichardsState K V → RichardsState K V → Prop := fun a b =>
    a.dumpFiles = true → b.dumpFiles = true → a.dumpIndex ≠ b.dumpIndex
  have hsymm : Std.Symm R := ⟨fun a b hab hb ha => (hab ha hb).symm⟩
  have hpairs : l.Pairwise R := by
    apply (pairwise_dumpIndex hl).imp
    intro a b hab _ hb
    rw [if_pos hb] at hab
    exact (Nat.lt_of_succ_le hab).ne
  by_contra hne
  exact hpairs.forall hs hs' hne hf hf' h

/-- The index at which a step dumped is counted once, and the step ends near the scheduled time of the index. -/
theorem exists_dump {l : List (RichardsState K V)} (hl : List.IsChain (AcceptsStep P stopTime) (s :: l))
    {z : RichardsState K V} (hz : l.getLast? = some z) {k : ℕ} (hk : s.dumpIndex ≤ k) (hkz : k < z.dumpIndex)
    (htime : P.scheduledTime k ≤ z.t) (hstop : z.t ≤ stopTime) :
    ∃ s' ∈ l, s'.dumpFiles = true ∧ s'.dumpIndex = k + 1 ∧ |s'.t - P.scheduledTime k| ≤ timeEpsilon := by
  have hgrow : ∀ a b : RichardsState K V, AcceptsStep P stopTime a b → b.dumpIndex ≤ a.dumpIndex + 1 := by
    intro a b h
    rw [h.dumpIndex]
    split_ifs
    · exact le_rfl
    · exact Nat.le_succ _
  obtain ⟨a, s', hs', h, ha, hk'⟩ := DoWhile.exists_count_step hgrow hl hz hk hkz
  have hdump : s'.dumpFiles = true := by
    by_contra hf
    have hsame := h.dumpIndex
    rw [if_neg hf] at hsame
    omega
  refine ⟨s', hs', hdump, hk', ?_⟩
  have hle := h.time.dump_le hdump
  have hge := h.time.dump_ge hdump
  rw [ha] at hle hge
  rw [abs_le]
  constructor
  · rcases hge with hge | hend
    · linarith
    · have heps := timeEpsilon_pos (K := K)
      linarith
  · linarith

/-- The time loop from the start time, with `dump_index` at 1: accepted times increase strictly, do not exceed
the stop time nor the time of the land surface model; each scheduled time up to the last accepted one has the one
step that dumps for it, which ends within the epsilon of it; and no dump is elsewhere, except at the stop time. -/
theorem timeSteps_schedule (P : RichardsProblem K V) (stopTime : K) (iterationNumber fileNumber : ℤ)
    (cur old : RichardsFields V) (hstop : P.startTime < stopTime) (hint : 2 * timeEpsilon < P.dumpInterval)
    (hselect : ∀ n, 0 < (P.selectTimeStep n).1)
    (hsolve : ∀ n, ∃ j : ℕ, (j : ℤ) < P.maxConvergenceFailures ∧ P.retval (n + j) = 0) :
    let s₀ := P.beginAdvance P.startTime 1 iterationNumber fileNumber cur old
    let steps := P.timeSteps stopTime s₀
    (∀ s ∈ steps, s.converged = true) ∧
    (s₀ :: steps).Pairwise (fun s s' => s.t < s'.t) ∧
    (∀ s ∈ steps, s.t ≤ stopTime ∧ (P.lsm = .clm → s.t ≤ s.ct)) ∧
    (s₀ :: steps).IsChain (fun s s' => s'.dumpIndex = if s'.dumpFiles then s.dumpIndex + 1 else s.dumpIndex) ∧
    (∀ z ∈ steps.getLast?, ∀ k, 1 ≤ k → P.scheduledTime k ≤ z.t →
      ∃ s ∈ steps, s.dumpFiles = true ∧ s.dumpIndex = k + 1 ∧ |s.t - P.scheduledTime k| ≤ timeEpsilon ∧
        ∀ s' ∈ steps, s'.dumpFiles = true → s'.dumpIndex = k + 1 → s' = s) ∧
    ∀ s ∈ steps, s.dumpFiles = true → |s.t - P.scheduledTime (s.dumpIndex - 1)| ≤ timeEpsilon ∨ s.t = stopTime := by
  intro s₀ steps
  have heps := timeEpsilon_pos (K := K)
  have hinit : TimeInv P stopTime s₀ := by
    constructor
    · exact hstop
    · show P.startTime < P.scheduledTime 1
      unfold scheduledTime
      push_cast
      linarith
  have hchain : List.IsChain (AcceptsStep P stopTime) (s₀ :: steps) := isChain_timeSteps hselect hint hsolve hinit
  refine ⟨?_, pairwise_time hchain, ?_, hchain.imp fun a b h => h.dumpIndex, ?_, ?_⟩
  · intro s hs
    obtain ⟨a, h⟩ := DoWhile.exists_rel_of_mem hchain hs
    exact h.converged
  · intro s hs
    obtain ⟨a, h⟩ := DoWhile.exists_rel_of_mem hchain hs
    exact ⟨h.time.stop, h.time.landSurface⟩
  · intro z hz k hk htime
    obtain ⟨a, hlast⟩ := DoWhile.exists_rel_of_mem hchain (List.mem_of_getLast? hz)
    have hkz : k < z.dumpIndex := by
      by_contra hle
      have hahead := hlast.dump_ahead hint
      have hmono : P.scheduledTime z.dumpIndex ≤ P.scheduledTime k := by
        unfold scheduledTime
        have hcast : (z.dumpIndex : K) ≤ k := Nat.cast_le.mpr (not_lt.mp hle)
        have hpos : 0 ≤ P.dumpInterval := by linarith
        linarith [mul_le_mul_of_nonneg_right hcast hpos]
      linarith
    obtain ⟨s, hs, hf, hk', hnear⟩ := exists_dump hchain hz hk hkz htime hlast.time.stop
    refine ⟨s, hs, hf, hk', hnear, ?_⟩
    intro s' hs' hf' hk''
    exact dump_unique hchain (List.mem_cons_of_mem _ hs') (List.mem_cons_of_mem _ hs) hf' hf (hk''.trans hk'.symm)
  · intro s hs hf
    obtain ⟨a, h⟩ := DoWhile.exists_rel_of_mem hchain hs
    have hindex := h.dumpIndex
    rw [if_pos hf] at hindex
    have hle := h.time.dump_le hf
    rw [hindex, Nat.add_sub_cancel]
    rcases h.time.dump_ge hf with hge | hend
    · exact .inl (abs_le.mpr ⟨by linarith, by linarith⟩)
    · exact .inr hend

end RichardsProblem

end

/-! ## A run -/

/-- Steps of a fifth to a dump every half, with a failure in the second step. -/
def sevenSteps : RichardsProblem ℚ ℚ where
  startTime := 0
  startCount := 0
  dumpInterval := 1 / 2
  dumpAtEnd := true
  maxIterations := 100
  maxConvergenceFailures := 3
  lsm := .clm
  evapTransFileTransient := false
  printPress := true
  printSatur := true
  selectTimeStep := fun _ => (1 / 5, 'c')
  surfacePredictor := fun _ _ f => f.pressure
  retval := fun n => if n = 1 then 1 else 0
  nonlinSolver := fun _ a => ⟨a.cur.pressure + a.dt, a.cur.density, a.cur.saturation⟩
  adjustPressure := fun p => p
  phaseDensity := fun _ => 1
  problemSaturation := fun p _ => p

def sevenStates : List (RichardsState ℚ ℚ) :=
  sevenSteps.timeSteps 1 (sevenSteps.beginAdvance 0 1 0 0 ⟨0, 1, 0⟩ ⟨0, 1, 0⟩)

theorem sevenSteps_schedule :
    sevenStates.map (fun s => (s.t, s.dumpIndex)) =
        [(1 / 5, 1), (3 / 10, 1), (2 / 5, 1), (1 / 2, 2), (3 / 5, 2), (4 / 5, 2), (1, 3)] ∧
      (∀ s ∈ sevenStates, s.t ≤ 1 ∧ s.t ≤ s.ct) ∧
      ∃ s ∈ sevenStates, s.dumpFiles = true ∧ s.dumpIndex = 2 ∧ |s.t - sevenSteps.scheduledTime 1| ≤ timeEpsilon := by
  have hsolve : ∀ n, ∃ j : ℕ, (j : ℤ) < sevenSteps.maxConvergenceFailures ∧ sevenSteps.retval (n + j) = 0 := by
    intro n
    by_cases hn : n = 1
    · exact ⟨1, by decide, by subst hn; rfl⟩
    · exact ⟨0, by decide, if_neg hn⟩
  have hselect : (0 : ℚ) < 1 / 5 := by decide +kernel
  have h := RichardsProblem.timeSteps_schedule sevenSteps 1 0 0 ⟨0, 1, 0⟩ ⟨0, 1, 0⟩ (by decide +kernel) (by decide +kernel)
    (fun _ => hselect) hsolve
  have hlast : sevenStates.getLast?.isSome = true := by decide +kernel
  obtain ⟨z, hz⟩ := Option.isSome_iff_exists.mp hlast
  have htime : sevenStates.getLast?.map RichardsState.t = some 1 := by decide +kernel
  have hone : sevenSteps.scheduledTime 1 ≤ z.t := by
    rw [hz] at htime
    rw [show z.t = 1 from Option.some.inj htime]
    decide +kernel
  obtain ⟨s, hs, hf, hk, hnear, -⟩ := h.2.2.2.2.1 z hz 1 le_rfl hone
  exact ⟨by decide +kernel, fun s hs => ⟨(h.2.2.1 s hs).1, (h.2.2.1 s hs).2 rfl⟩, s, hs, hf, hk, hnear⟩

end ParFlow
