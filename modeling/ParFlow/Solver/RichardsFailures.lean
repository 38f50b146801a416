import ParFlow.Solver.RichardsStep

/-! What the failed tries of a time step leave behind. Time and fields go back at the top of the next try, so
that nothing remains of a failure that is followed by another try; the last failure allowed is not, and its time
and fields are kept and dumped. -/

set_option linter.unusedSectionVars false

namespace ParFlow

open ExceptLoop

section

variable {K V : Type*} [Field K] [LinearOrder K] [FloorRing K]

namespace RichardsProblem

variable {P : RichardsProblem K V} {stopTime : K} {s s' r : RichardsState K V}

/-- Time and fields of a step from `s` whose solve converged. -/
def OfConvergedStep (P : RichardsProblem K V) (s r : RichardsState K V) : Prop :=
  ∃ n, P.retval n = 0 ∧ r.converged = true ∧ r.t = s.t + r.dt ∧
    r.cur = P.nonlinSolver n
      ⟨{ s.cur with pressure := P.surfacePredictor n r.dt s.cur }, s.cur, s.t + r.dt, r.dt⟩

/-- The loop over the tries of the round from `s` is left in `r` with nothing of a failed try. -/
def NoTrace (P : RichardsProblem K V) (s r : RichardsState K V) : Prop :=
  P.OfConvergedStep s r ∨ r.t = s.t ∧ r.cur = s.cur

/-- The files hold the fields of `s`. -/
def DumpOf (s : RichardsState K V) (d : RichardsDump K V) : Prop :=
  d.time = s.t ∧ (∀ p ∈ d.pressure, p = s.cur.pressure) ∧ ∀ p ∈ d.saturation, p = s.cur.saturation

/-- A run of `AdvanceRichards` from `s` in which failed tries leave no trace: neither where the loop over the
tries is left, nor in a file written during the run or at its end. -/
structure NoTraceRun (P : RichardsProblem K V) (stopTime : K) (s : RichardsState K V) : Prop where
  left : ∀ a ∈ (s :: P.timeSteps stopTime s).dropLast, ∀ r, P.tryLoop stopTime (beginTimeStep a) = .ok r → P.NoTrace a r
  dumps : ∀ a ∈ P.timeSteps stopTime s, ∀ d ∈ a.dumps, ∃ b ∈ P.timeSteps stopTime s, b.converged = true ∧ DumpOf b d
  atEnd : ∀ r, P.advanceRichards stopTime s = .ok r → ∀ d ∈ r.dumps,
    ∃ b ∈ P.timeSteps stopTime s, b.converged = true ∧ DumpOf b d

theorem noTrace_tryLoop [IsStrictOrderedRing K] (hs : P.SomeConverges s)
    (h : P.tryLoop stopTime (beginTimeStep s) = .ok r) : P.NoTrace s r := by
  have hconv := converged_tryLoop hs h
  obtain ⟨s', hinv, hlast⟩ := exists_last_try h
  have hafter := tryTimeStep_spec hinv.before hlast
  have hret : P.retval s'.solves = 0 := by
    have hflag := (tryTimeStep_counts hlast).2.1
    rw [hconv] at hflag
    exact eq_of_beq hflag.symm
  exact .inl ⟨s'.solves, hret, hconv, hafter.t, hafter.cur⟩

/-! ## The files -/

theorem dumps_writeDump (P : RichardsProblem K V) (s : RichardsState K V) :
    (P.writeDump s).dumps = s.dumps ∨ ∃ d, DumpOf s d ∧ (P.writeDump s).dumps = s.dumps ++ [d] := by
  unfold writeDump
  split
  · refine .inr ⟨_, ⟨rfl, ?_, ?_⟩, rfl⟩
    · intro p hp
      have hsome : P.printPress = true ∧ s.cur.pressure = p := by simpa using hp
      exact hsome.2.symm
    · intro p hp
      have hsome : P.printSatur = true ∧ s.cur.saturation = p := by simpa using hp
      exact hsome.2.symm
  · exact .inl rfl

/-- A round of the time loop that converged and added no files, or files with the fields it ends in. -/
structure DumpsOwn (s s' : RichardsState K V) : Prop where
  converged : s'.converged = true
  dumps : s'.dumps = s.dumps ∨ ∃ d, DumpOf s' d ∧ s'.dumps = s.dumps ++ [d]

theorem dumps_finishTimeStep (P : RichardsProblem K V) (stopTime : K) (s : RichardsState K V) :
    (P.finishTimeStep stopTime s).dumps = s.dumps ∨
      ∃ d, DumpOf (P.finishTimeStep stopTime s) d ∧ (P.finishTimeStep stopTime s).dumps = s.dumps ++ [d] := by
  have hupdate : ∀ u : RichardsState K V, (P.checkMore stopTime (P.dumpTimeStep u)).dumps = u.dumps ∨
      ∃ d, DumpOf (P.checkMore stopTime (P.dumpTimeStep u)) d ∧
        (P.checkMore stopTime (P.dumpTimeStep u)).dumps = u.dumps ++ [d] := by
    intro u
    unfold checkMore dumpTimeStep
    split
    · obtain ⟨l, n, hwrite⟩ := P.writeDump_eq u
      have hdumps := P.dumps_writeDump u
      rw [hwrite] at hdumps ⊢
      exact hdumps
    · exact .inl rfl
  exact hupdate (P.updateFields { s with iterationNumber := s.iterationNumber + 1 })

theorem advanceTimeStep_dumpsOwn [IsStrictOrderedRing K] (hs : P.SomeConverges s)
    (h : P.advanceTimeStep stopTime s = .ok s') : DumpsOwn s s' := by
  obtain ⟨r, htry, rfl⟩ := advanceTimeStep_eq h
  have hconv := converged_tryLoop hs htry
  obtain ⟨a, hinv, hlast⟩ := exists_last_try htry
  have hkeeps : r.dumps = s.dumps := (tryTimeStep_spec hinv.before hlast).keeps.dumps
  have hdumps := P.dumps_finishTimeStep stopTime r
  rw [hkeeps] at hdumps
  obtain ⟨cur, l, n, m, hfinish⟩ := P.finishTimeStep_eq stopTime r
  refine ⟨?_, hdumps⟩
  rw [hfinish]
  exact hconv

/-- Along rounds that converge, every file holds the fields of one of the states. -/
theorem exists_dumpOf {l : List (RichardsState K V)} (hl : List.IsChain DumpsOwn (s :: l)) (hs : s' ∈ l)
    {d : RichardsDump K V} (hd : d ∈ s'.dumps) : d ∈ s.dumps ∨ ∃ b ∈ l, b.converged = true ∧ DumpOf b d := by
  induction l generalizing s with
  | nil => exact absurd hs List.not_mem_nil
  | cons a l ih =>
    rw [List.isChain_cons_cons] at hl
    have hfirst : d ∈ a.dumps → d ∈ s.dumps ∨ ∃ b ∈ a :: l, b.converged = true ∧ DumpOf b d := by
      intro hda
      rcases hl.1.dumps with hsame | ⟨d', hof, hnew⟩
      · rw [hsame] at hda
        exact .inl hda
      · rw [hnew] at hda
        rcases List.mem_append.mp hda with hold | hnew'
        · exact .inl hold
        · cases List.mem_singleton.mp hnew'
          exact .inr ⟨a, List.mem_cons_self, hl.1.converged, hof⟩
    rcases List.mem_cons.mp hs with rfl | hmem
    · exact hfirst hd
    · rcases ih hl.2 hmem with hda | ⟨b, hb, hof⟩
      · exact hfirst hda
      · exact .inr ⟨b, List.mem_cons_of_mem _ hb, hof⟩

/-! ## Runs -/

/-- In a run whose rounds all have a solve that converges before `max_failures` is reached, no failed try leaves
a trace. -/
theorem noTraceRun_of_someConverges [IsStrictOrderedRing K] (P : RichardsProblem K V) (stopTime startTime : K)
    (dumpIndex : ℕ) (iterationNumber fileNumber : ℤ) (cur old : RichardsFields V) :
    let s₀ := P.beginAdvance startTime dumpIndex iterationNumber fileNumber cur old
    (∀ s ∈ (s₀ :: P.timeSteps stopTime s₀).dropLast, P.SomeConverges s) → P.NoTraceRun stopTime s₀ := by
  intro s₀ hsome
  have hchain : List.IsChain DumpsOwn (s₀ :: P.timeSteps stopTime s₀) := by
    apply DoWhile.isChain_imp_dropLast (DoWhile.isChain_body _ _ _ s₀)
    exact fun a ha b h => advanceTimeStep_dumpsOwn (hsome a ha) h
  -- the run starts without files
  have hfiles : ∀ a ∈ P.timeSteps stopTime s₀, ∀ d ∈ a.dumps,
      ∃ b ∈ P.timeSteps stopTime s₀, b.converged = true ∧ DumpOf b d := by
    intro a ha d hd
    exact (exists_dumpOf hchain ha hd).resolve_left List.not_mem_nil
  constructor
  · exact fun a ha r h => noTrace_tryLoop (hsome a ha) h
  · exact hfiles
  · intro r hr d hd
    unfold advanceRichards at hr
    obtain ⟨z, hloop, hr⟩ := exists_of_bind_ok hr
    have hz : z ∈ P.timeSteps stopTime s₀ := List.mem_of_getLast? (DoWhile.getLast?_rounds hloop)
    obtain ⟨a, hlast⟩ := DoWhile.exists_rel_of_mem hchain hz
    cases hr
    split_ifs at hd
    · rcases P.dumps_writeDump z with hsame | ⟨d', hof, hnew⟩
      · rw [hsame] at hd
        exact hfiles z hz d hd
      · rw [hnew] at hd
        rcases List.mem_append.mp hd with hold | hend
        · exact hfiles z hz d hold
        · cases List.mem_singleton.mp hend
          exact ⟨z, hz, hlast.converged, hof⟩
    · exact hfiles z hz d hd

end RichardsProblem

end

/-! ## The last failure allowed -/

/-- A dump in every step; the first solve that converges is the one with number `first`. -/
def failsUntil (first : ℕ) : RichardsProblem ℚ ℚ where
  startTime := 0
  startCount := 0
  dumpInterval := -1
  dumpAtEnd := true
  maxIterations := 2
  maxConvergenceFailures := 2
  lsm := .none
  evapTransFileTransient := false
  printPress := true
  printSatur := true
  selectTimeStep := fun _ => (1, 'c')
  surfacePredictor := fun _ _ f => f.pressure
  retval := fun n => if n < first then 1 else 0
  nonlinSolver := fun _ a => ⟨a.cur.pressure + a.dt, a.cur.density, a.cur.saturation⟩
  adjustPressure := fun p => p
  phaseDensity := fun _ => 1
  problemSaturation := fun p _ => p

theorem oneFailure_noTraceRun :
    (failsUntil 1).NoTraceRun 10 ((failsUntil 1).beginAdvance 0 1 0 0 ⟨0, 1, 0⟩ ⟨0, 1, 0⟩) := by
  apply RichardsProblem.noTraceRun_of_someConverges
  intro s _
  refine ⟨1, by decide, ?_⟩
  show (if s.solves + 1 < 1 then (1 : ℤ) else 0) = 0
  rw [if_neg (by omega)]

def afterTwoFailures : List (RichardsState ℚ ℚ) :=
  (failsUntil 2).timeSteps 10 ((failsUntil 2).beginAdvance 0 1 0 0 ⟨0, 1, 0⟩ ⟨0, 1, 0⟩)

/-- After two failures out of two, time and pressure are those of the second one, and they are dumped. -/
theorem twoFailures_not_noTraceRun :
    afterTwoFailures.map (fun s => (s.converged, s.t, s.cur.pressure, s.dumps)) =
        [(false, 1 / 2, 1 / 2, [⟨0, 1 / 2, some (1 / 2), some (1 / 2)⟩])] ∧
      ¬ (failsUntil 2).NoTraceRun 10 ((failsUntil 2).beginAdvance 0 1 0 0 ⟨0, 1, 0⟩ ⟨0, 1, 0⟩) := by
  have hstates : afterTwoFailures.map (fun s => (s.converged, s.t, s.cur.pressure, s.dumps)) =
      [(false, 1 / 2, 1 / 2, [⟨0, 1 / 2, some (1 / 2), some (1 / 2)⟩])] := by decide +kernel
  refine ⟨hstates, ?_⟩
  intro h
  obtain ⟨s, hlist, hs⟩ := List.map_eq_singleton_iff.mp hstates
  have hmem : s ∈ afterTwoFailures := by simp [hlist]
  have hdump : (⟨0, 1 / 2, some (1 / 2), some (1 / 2)⟩ : RichardsDump ℚ ℚ) ∈ s.dumps := by
    rw [show s.dumps = [⟨0, 1 / 2, some (1 / 2), some (1 / 2)⟩] from congrArg (·.2.2.2) hs]
    exact List.mem_singleton_self _
  obtain ⟨b, hb, hconv, -⟩ := h.dumps s hmem _ hdump
  change b ∈ afterTwoFailures at hb
  rw [hlist, List.mem_singleton] at hb
  rw [hb, show s.converged = false from congrArg (·.1) hs] at hconv
  exact absurd hconv (by decide)

end ParFlow
