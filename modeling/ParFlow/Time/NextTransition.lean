import ParFlow.Time.IntervalNumber

/-! When the next interval of any cycle begins. The number of whole rounds is taken from the elapsed time, the
position in the round from the unit before it, so that the two disagree where a round ends. -/

namespace ParFlow

open PeriodicIntervals

section

variable {K : Type*} [Field K] [LinearOrder K] [FloorRing K] (P : TimingInfo K)

namespace TimingInfo

/-- The test by which the interval number of a cycle depends on the time. -/
def StillRepeating (c : TimeCycle) (time : K) : Prop := c.repeatCount < 0 ∨ time < P.repeatsEnd c

/-- One of several intervals ends, in a round after the start. -/
def IsTransition (c : TimeCycle) (time : K) : Prop := 1 < c.intervals.length ∧ ∃ round : ℤ, 0 ≤ round ∧
  ∃ i < c.intervals.length, time = P.unitsAfterStart (round * c.cycleLength + bound c.intervals (i + 1))

/-- A positive step ends at a transition, and no interval number changes before. -/
def NeverStepsOver (cycles : TimeCycleData) (time : K) : Prop :=
  ∀ deltat, P.timeCycleDataComputeNextTransition time (some cycles) = some deltat → 0 < deltat →
    (∀ cycleNumber < cycles.length, ∀ t t', time < t → t < time + deltat → time < t' → t' < time + deltat →
      P.timeCycleDataComputeIntervalNumber t (some cycles) cycleNumber =
        P.timeCycleDataComputeIntervalNumber t' (some cycles) cycleNumber) ∧
      ∃ c ∈ cycles, P.StillRepeating c (time + deltat) ∧ P.IsTransition c (time + deltat)

/-! ## Where the step is right -/

/-- The end of the interval of the current unit. -/
def currentEnd (time : K) (c : TimeCycle) : K := P.unitsAfterStart (endAt c.intervals (P.currentUnit time))

/-- A number of repeats is over. -/
def IsOver (time : K) (c : TimeCycle) : Prop := 0 < c.repeatCount ∧ P.repeatsEnd c ≤ time

/-- The elapsed time is not more than a round before the start, and not at the end of a round. -/
def InsideRound (time : K) (c : TimeCycle) : Prop :=
  -c.cycleLength < P.elapsed time ∧ ¬ (0 < P.elapsed time ∧ c.cycleLength ∣ P.elapsed time)

/-- The next change of the interval number is the end of the current interval, and is not left out. -/
structure Announces (cycles : TimeCycleData) (time : K) (c : TimeCycle) : Prop where
  repeats : c.repeatCount ≠ 0
  inside : time < P.timeDefined c → P.InsideRound time c
  -- the repeats are not over in the middle of a round
  before_end : 0 < c.repeatCount →
    P.currentEnd time c < P.repeatsEnd c ∨ indexAt c.intervals (P.currentUnit time) + 1 = c.intervals.length
  -- transitions from the stop time on are left out
  before_stop : c.repeatCount < 0 → time < P.stopTime ∧ P.currentEnd time c < P.stopTime ∨
    ∀ d ∈ cycles, 0 < d.repeatCount → P.repeatsEnd d ≤ P.stopTime

/-- Every cycle of several intervals is over or announces its next transition. -/
def AllAnnounce (cycles : TimeCycleData) (time : K) : Prop :=
  ∀ c ∈ cycles, 1 < c.intervals.length → P.IsOver time c ∨ P.Announces cycles time c

end TimingInfo

end

/-! ## The loop over the cycles -/

namespace TimingInfo

section Defined

variable {K : Type*} [Field K] (P : TimingInfo K) {c : TimeCycle}

theorem timeDefined_of_pos (h : 0 < c.repeatCount) : P.timeDefined c = P.repeatsEnd c := if_pos h

theorem timeDefined_of_neg (h : c.repeatCount < 0) : P.timeDefined c = P.stopTime := if_neg (by omega)

end Defined

section Loop

variable {K : Type*} [Field K] [LinearOrder K] [FloorRing K] {P : TimingInfo K} {time τ δ : K}
  {c : TimeCycle} {cycles : TimeCycleData} {deltat res : Option K}

/-- The cycle takes part in the minimum, with this transition. -/
structure Counts (P : TimingInfo K) (time : K) (c : TimeCycle) (τ : K) : Prop where
  defined : time < P.timeDefined c
  several : 1 < c.intervals.length
  transition : P.transitionTime time c = some τ
  in_time : τ < P.timeDefined c

theorem nextTransitionStep_spec (h : P.nextTransitionStep time deltat c = some res) :
    (res = deltat ∧ ∀ τ, ¬ P.Counts time c τ) ∨
      ∃ τ, P.Counts time c τ ∧ (∀ τ', P.Counts time c τ' → τ' = τ) ∧
        res = some (deltat.elim (τ - time) fun δ => min δ (τ - time)) := by
  unfold nextTransitionStep at h
  have hseveral : c.intervalDivision > 1 ↔ 1 < c.intervals.length := by
    unfold TimeCycle.intervalDivision
    omega
  split_ifs at h with hdef
  · cases htrans : P.transitionTime time c with
    | none =>
      rw [htrans] at h
      cases h
    | some τ =>
      rw [htrans, Option.map_some, Option.some.injEq] at h
      split_ifs at h with hlt
      · refine Or.inr ⟨τ, ⟨hdef.1, hseveral.mp hdef.2, htrans, hlt⟩, ?_, ?_⟩
        · intro τ' hτ'
          exact Option.some.inj (hτ'.transition.symm.trans htrans)
        · rw [← h]
          cases deltat <;> rfl
      · refine Or.inl ⟨h.symm, ?_⟩
        intro τ' hτ'
        rw [Option.some.inj (hτ'.transition.symm.trans htrans)] at hτ'
        exact hlt hτ'.in_time
  · refine Or.inl ⟨(Option.some.inj h).symm, ?_⟩
    intro τ hτ
    exact hdef ⟨hτ.defined, hseveral.mpr hτ.several⟩

/-- The loop leaves the least of the steps to the transitions that count. -/
theorem foldlM_nextTransitionStep (h : cycles.foldlM (P.nextTransitionStep time) deltat = some res) :
    (∀ δ, deltat = some δ → ∃ δ', res = some δ' ∧ δ' ≤ δ) ∧
      (∀ c ∈ cycles, ∀ τ, P.Counts time c τ → ∃ δ', res = some δ' ∧ δ' ≤ τ - time) ∧
      ∀ δ', res = some δ' → deltat = some δ' ∨ ∃ c ∈ cycles, ∃ τ, P.Counts time c τ ∧ δ' = τ - time := by
  induction cycles generalizing deltat with
  | nil =>
    obtain rfl := Option.some.inj h
    exact ⟨fun δ hδ => ⟨δ, hδ, le_rfl⟩, fun c hc => absurd hc List.not_mem_nil, fun δ' hδ' => Or.inl hδ'⟩
  | cons c cycles ih =>
    rw [List.foldlM_cons] at h
    obtain ⟨mid, hstep, hrest⟩ := Option.bind_eq_some_iff.mp h
    obtain ⟨hkeep, hall, hfrom⟩ := ih hrest
    rcases nextTransitionStep_spec hstep with ⟨rfl, hnone⟩ | ⟨τ, hτ, hunique, rfl⟩
    · refine ⟨hkeep, ?_, ?_⟩
      · intro d hd τ hτ
        rcases List.mem_cons.mp hd with rfl | hd
        · exact absurd hτ (hnone τ)
        · exact hall d hd τ hτ
      · intro δ' hδ'
        rcases hfrom δ' hδ' with heq | ⟨d, hd, hcounts⟩
        · exact Or.inl heq
        · exact Or.inr ⟨d, List.mem_cons_of_mem c hd, hcounts⟩
    · obtain ⟨δ', hres, hle⟩ := hkeep _ rfl
      have hmin : δ' ≤ τ - time ∧ ∀ δ, deltat = some δ → δ' ≤ δ := by
        cases deltat with
        | none => exact ⟨hle, fun δ hδ => by cases hδ⟩
        | some δ =>
          refine ⟨hle.trans (min_le_right _ _), ?_⟩
          intro δ₁ hδ₁
          rw [← Option.some.inj hδ₁]
          exact hle.trans (min_le_left _ _)
      refine ⟨fun δ hδ => ⟨δ', hres, hmin.2 δ hδ⟩, ?_, ?_⟩
      · intro d hd τ' hτ'
        rcases List.mem_cons.mp hd with rfl | hd
        · rw [hunique τ' hτ']
          exact ⟨δ', hres, hmin.1⟩
        · exact hall d hd τ' hτ'
      · intro δ₁ hδ₁
        rcases hfrom δ₁ hδ₁ with heq | ⟨d, hd, hcounts⟩
        · cases deltat with
          | none => exact Or.inr ⟨c, List.mem_cons_self, τ, hτ, (Option.some.inj heq).symm⟩
          | some δ =>
            have heq := Option.some.inj heq
            rcases min_choice δ (τ - time) with hleft | hright
            · left
              rw [← heq]
              exact congrArg some hleft.symm
            · exact Or.inr ⟨c, List.mem_cons_self, τ, hτ, heq.symm.trans hright⟩
        · exact Or.inr ⟨d, List.mem_cons_of_mem c hd, hcounts⟩

/-- A positive step is the least one to a transition that counts. -/
theorem nextTransition_spec {K : Type*} [Field K] [LinearOrder K] [IsStrictOrderedRing K] [FloorRing K]
    {P : TimingInfo K} {time deltat : K} {cycles : TimeCycleData}
    (h : P.timeCycleDataComputeNextTransition time (some cycles) = some deltat) (hpos : 0 < deltat) :
    (∃ c ∈ cycles, P.Counts time c (time + deltat)) ∧ ∀ c ∈ cycles, ∀ τ, P.Counts time c τ → time + deltat ≤ τ := by
  unfold timeCycleDataComputeNextTransition at h
  obtain ⟨res, hloop, hres⟩ := Option.map_eq_some_iff.mp h
  obtain ⟨-, hall, hfrom⟩ := foldlM_nextTransitionStep hloop
  split_ifs at hres with hsmall
  · linarith
  · cases res with
    | none =>
      rw [Option.getD_none] at hres
      linarith
    | some δ =>
      obtain rfl : δ = deltat := hres
      constructor
      · rcases hfrom δ rfl with hnone | ⟨c, hc, τ, hτ, heq⟩
        · cases hnone
        · refine ⟨c, hc, ?_⟩
          rwa [heq, add_sub_cancel]
      · intro c hc τ hτ
        obtain ⟨δ', heq, hle⟩ := hall c hc τ hτ
        rw [Option.some.inj heq]
        linarith

end Loop

/-! ## One cycle -/

section Cycle

variable {K : Type*} [Field K] [LinearOrder K] [FloorRing K] (P : TimingInfo K) {time : K} {c : TimeCycle}

/-- The announced transition is the end of the current interval. -/
theorem transitionTime_eq (hc : c.IsCycle) (hlen : 1 < c.intervals.length) (hinside : P.InsideRound time c) :
    P.transitionTime time c = some (P.currentEnd time c) := by
  obtain ⟨hlow, hround⟩ := hinside
  have hpos := hc.round.sum_pos
  rw [hc.length_eq] at hlow hround
  unfold transitionTime currentEnd
  rw [P.loop_eq hc, Option.map_some, hc.length_eq]
  unfold currentUnit TimeCycle.intervalDivision
  dsimp only
  rcases le_or_gt (P.elapsed time) 0 with hk | hk
  · -- the first interval, in the first round
    have hfirst := indexAt_of_mem_first hc.round le_rfl
      (bound_lt hc.round.pos Nat.zero_lt_one (Nat.succ_le_of_lt hc.round.length_pos))
    have hquot : (P.elapsed time).tdiv c.intervals.sum = 0 := by
      rw [← neg_neg (P.elapsed time), Int.neg_tdiv, Int.tdiv_eq_zero_of_lt (by omega) (by omega), neg_zero]
    have hmod : (((0 : ℕ) : ℤ) + 1).tmod c.intervals.length ≠ 0 := by
      rw [Int.tmod_eq_of_lt (by decide) (by omega)]
      decide
    rw [max_eq_right (by omega), hfirst.1, hfirst.2, hquot, if_neg hmod, zero_mul, zero_add]
  · obtain ⟨hi, hle, hlt⟩ := indexAt_spec hc.round (P.elapsed time - 1)
    have hquot : (P.elapsed time).tdiv c.intervals.sum = (P.elapsed time - 1) / c.intervals.sum := by
      have hrem : P.elapsed time % c.intervals.sum ≠ 0 := fun h => hround ⟨hk, Int.dvd_of_emod_eq_zero h⟩
      have hnonneg := Int.emod_nonneg (P.elapsed time) hpos.ne'
      have hless := Int.emod_lt_of_pos (P.elapsed time) hpos
      have hdiv := Int.mul_ediv_add_emod (P.elapsed time) c.intervals.sum
      rw [Int.tdiv_eq_ediv_of_nonneg hk.le]
      symm
      rw [Int.ediv_eq_iff_of_pos hpos]
      rw [mul_comm] at hdiv
      constructor <;> omega
    rw [max_eq_left (by omega), hquot]
    rcases (Nat.succ_le_of_lt hi).lt_or_eq with hlt' | hlast
    · have hmod : ((indexAt c.intervals (P.elapsed time - 1) : ℤ) + 1).tmod c.intervals.length ≠ 0 := by
        rw [Int.tmod_eq_of_lt (by omega) (by omega)]
        omega
      rw [if_neg hmod]
      rfl
    · have hmod : ((indexAt c.intervals (P.elapsed time - 1) : ℤ) + 1).tmod c.intervals.length = 0 := by
        rw [show (indexAt c.intervals (P.elapsed time - 1) : ℤ) + 1 = c.intervals.length by omega, Int.tmod_self]
      rw [if_pos hmod, endAt_of_last hlast]

theorem currentUnit_nonneg (time : K) : 0 ≤ P.currentUnit time := le_max_right _ _

theorem currentEnd_isTransition (hc : c.IsCycle) (hlen : 1 < c.intervals.length) :
    P.IsTransition c (P.currentEnd time c) := by
  refine ⟨hlen, P.currentUnit time / c.intervals.sum, Int.ediv_nonneg (P.currentUnit_nonneg time) hc.round.sum_pos.le,
    indexAt c.intervals (P.currentUnit time), (indexAt_spec hc.round _).1, ?_⟩
  rw [hc.length_eq]
  rfl

theorem Announces.counts {cycles : TimeCycleData} (h : P.Announces cycles time c) (hc : c.IsCycle)
    (hlen : 1 < c.intervals.length) (hdefined : time < P.timeDefined c) (hend : P.currentEnd time c < P.timeDefined c) :
    P.Counts time c (P.currentEnd time c) :=
  ⟨hdefined, hlen, P.transitionTime_eq hc hlen (h.inside hdefined), hend⟩

end Cycle

/-! ## Up to the next transition -/

section Window

variable {K : Type*} [Field K] [LinearOrder K] [IsStrictOrderedRing K] [FloorRing K] (P : TimingInfo K)
  {time t : K} {n : ℤ} {c : TimeCycle} {cycles : TimeCycleData}

theorem unitsAfterStart_lt (hunit : 0 < P.baseTimeUnit) {m : ℤ} : P.unitsAfterStart n < P.unitsAfterStart m ↔ n < m := by
  unfold unitsAfterStart
  rw [add_lt_add_iff_left, mul_lt_mul_iff_left₀ hunit, Int.cast_lt]

/-- Before the end of the current interval a time lies in that interval. -/
theorem indexAt_currentUnit (hunit : 0 < P.baseTimeUnit) (hc : c.IsCycle) (hn : 0 ≤ n)
    (hend : n ≤ endAt c.intervals (P.currentUnit time)) (hlt : time < t) (ht : t < P.unitsAfterStart n) :
    indexAt c.intervals (P.currentUnit t) = indexAt c.intervals (P.currentUnit time) := by
  have hle := P.elapsed_le hunit hn ht
  have hmono : P.elapsed time ≤ P.elapsed t := sub_le_sub_right (P.discretizedTime_mono hunit hlt.le) _
  have hlast := lt_endAt hc.round (P.currentUnit time)
  have hnonneg := P.currentUnit_nonneg time
  apply indexAt_eq_of_lt hc.round
  · exact max_le_max (by omega) le_rfl
  · unfold currentUnit at hend hlast hnonneg ⊢
    omega

omit [IsStrictOrderedRing K] in
/-- The transition that a cycle announces ends its current interval, in a round that counts. -/
theorem Counts.spec {τ : K} (hcounts : P.Counts time c τ) (hc : c.IsCycle)
    (h : P.IsOver time c ∨ P.Announces cycles time c) :
    P.Announces cycles time c ∧ τ = P.currentEnd time c ∧ P.StillRepeating c τ := by
  rcases h with ⟨hrepeat, hover⟩ | h
  · have hdef := hcounts.defined
    rw [P.timeDefined_of_pos hrepeat] at hdef
    exact absurd hdef (not_lt.mpr hover)
  · refine ⟨h, ?_, ?_⟩
    · exact Option.some.inj (hcounts.transition.symm.trans (P.transitionTime_eq hc hcounts.several (h.inside hcounts.defined)))
    · rcases lt_or_gt_of_ne h.repeats with hneg | hpos
      · exact Or.inl hneg
      · have hlt := hcounts.in_time
        rw [P.timeDefined_of_pos hpos] at hlt
        exact Or.inr hlt

omit [IsStrictOrderedRing K] in
theorem intervalNumber_of_single (hc : c.IsCycle) (hlen : c.intervals.length = 1) (t : K) :
    P.intervalNumber t c = some 0 := by
  by_cases hrepeat : c.repeatCount < 0 ∨ t < P.repeatsEnd c
  · have hlt := (indexAt_spec hc.round (P.currentUnit t)).1
    rw [P.intervalNumber_of_repeating hc hrepeat]
    congr 1
    omega
  · rw [P.intervalNumber_of_over hrepeat]
    unfold TimeCycle.intervalDivision
    rw [hlen]
    rfl

omit [IsStrictOrderedRing K] in
theorem intervalNumber_after (hrepeat : 0 < c.repeatCount) (hover : P.repeatsEnd c ≤ t) :
    P.intervalNumber t c = some (c.intervalDivision - 1) := by
  apply P.intervalNumber_of_over
  rintro (hneg | hlt)
  · omega
  · exact absurd hlt (not_lt.mpr hover)

theorem le_endAt_of_le_currentEnd (hunit : 0 < P.baseTimeUnit) (h : P.unitsAfterStart n ≤ P.currentEnd time c) :
    n ≤ endAt c.intervals (P.currentUnit time) := by
  by_contra hlt
  exact absurd ((P.unitsAfterStart_lt hunit).mpr (not_le.mp hlt)) (not_lt.mpr h)

/-- A cycle without end stays in its interval. -/
theorem intervalNumber_endless (hunit : 0 < P.baseTimeUnit) (hc : c.IsCycle) (hn : 0 ≤ n) (hlen : 1 < c.intervals.length)
    (hneg : c.repeatCount < 0) (h : P.Announces cycles time c) (hleast : ∀ τ, P.Counts time c τ → P.unitsAfterStart n ≤ τ)
    (hstop : (∀ d ∈ cycles, 0 < d.repeatCount → P.repeatsEnd d ≤ P.stopTime) → P.unitsAfterStart n < P.stopTime)
    (hlt : time < t) (ht : t < P.unitsAfterStart n) :
    P.intervalNumber t c = some (indexAt c.intervals (P.currentUnit time) : ℤ) := by
  have hdefined := P.timeDefined_of_neg hneg
  have hend : P.unitsAfterStart n ≤ P.currentEnd time c := by
    rcases h.before_stop hneg with ⟨hdef, hend⟩ | hall
    · exact hleast _ (Announces.counts P h hc hlen (hdefined ▸ hdef) (hdefined ▸ hend))
    · have hn' := hstop hall
      rcases lt_or_ge (P.currentEnd time c) P.stopTime with hlt' | hge
      · have hdef : time < P.stopTime := (hlt.trans ht).trans hn'
        exact hleast _ (Announces.counts P h hc hlen (hdefined ▸ hdef) (hdefined ▸ hlt'))
      · exact (hn'.trans_le hge).le
  rw [P.intervalNumber_of_repeating hc (Or.inl hneg),
    P.indexAt_currentUnit hunit hc hn (P.le_endAt_of_le_currentEnd hunit hend) hlt ht]

/-- A cycle with a number of repeats stays in its interval, which may be the last one of all. -/
theorem intervalNumber_counted (hunit : 0 < P.baseTimeUnit) (hc : c.IsCycle) (hn : 0 ≤ n) (hlen : 1 < c.intervals.length)
    (hpos : 0 < c.repeatCount) (hnot : ¬ P.repeatsEnd c ≤ time) (h : P.Announces cycles time c)
    (hleast : ∀ τ, P.Counts time c τ → P.unitsAfterStart n ≤ τ) (hlt : time < t) (ht : t < P.unitsAfterStart n) :
    P.intervalNumber t c = some (indexAt c.intervals (P.currentUnit time) : ℤ) := by
  have hdefined := P.timeDefined_of_pos hpos
  rcases lt_or_ge (P.currentEnd time c) (P.repeatsEnd c) with hend | hend
  · have hle : P.unitsAfterStart n ≤ P.currentEnd time c :=
      hleast _ (Announces.counts P h hc hlen (hdefined ▸ not_le.mp hnot) (hdefined ▸ hend))
    rw [P.intervalNumber_of_repeating hc (Or.inr (ht.trans_le hle |>.trans hend)),
      P.indexAt_currentUnit hunit hc hn (P.le_endAt_of_le_currentEnd hunit hle) hlt ht]
  · -- the last interval, which is also that of the time after the repeats
    have hlast := (h.before_end hpos).resolve_left (not_lt.mpr hend)
    by_cases hrepeating : t < P.repeatsEnd c
    · have hpos' : 0 ≤ endAt c.intervals (P.currentUnit time) :=
        ((P.currentUnit_nonneg time).trans_lt (lt_endAt hc.round _)).le
      rw [P.intervalNumber_of_repeating hc (Or.inr hrepeating),
        P.indexAt_currentUnit hunit hc hpos' le_rfl hlt (hrepeating.trans_le hend)]
    · rw [P.intervalNumber_after hpos (not_lt.mp hrepeating)]
      unfold TimeCycle.intervalDivision
      congr 1
      omega

/-- No interval number changes before the earliest transition that counts. -/
theorem intervalNumber_const (hunit : 0 < P.baseTimeUnit) (hc : c.IsCycle) (hn : 0 ≤ n)
    (hlen : 1 < c.intervals.length) (h : P.IsOver time c ∨ P.Announces cycles time c)
    (hleast : ∀ τ, P.Counts time c τ → P.unitsAfterStart n ≤ τ)
    (hstop : (∀ d ∈ cycles, 0 < d.repeatCount → P.repeatsEnd d ≤ P.stopTime) → P.unitsAfterStart n < P.stopTime) :
    ∃ v, ∀ t, time < t → t < P.unitsAfterStart n → P.intervalNumber t c = some v := by
  have hafter : 0 < c.repeatCount → P.repeatsEnd c ≤ time →
      ∃ v, ∀ t, time < t → t < P.unitsAfterStart n → P.intervalNumber t c = some v := fun hpos hover =>
    ⟨c.intervalDivision - 1, fun t hlt _ => P.intervalNumber_after hpos (hover.trans hlt.le)⟩
  rcases h with ⟨hrepeat, hover⟩ | h
  · exact hafter hrepeat hover
  · rcases lt_or_gt_of_ne h.repeats with hneg | hpos
    · exact ⟨_, fun t hlt ht => P.intervalNumber_endless hunit hc hn hlen hneg h hleast hstop hlt ht⟩
    · by_cases hover : P.repeatsEnd c ≤ time
      · exact hafter hpos hover
      · exact ⟨_, fun t hlt ht => P.intervalNumber_counted hunit hc hn hlen hpos hover h hleast hlt ht⟩

end Window

/-! ## At the end of a round -/

section RoundEnd

variable {K : Type*} [Field K] [LinearOrder K] [IsStrictOrderedRing K] [FloorRing K] (P : TimingInfo K) {time : K}
  {c : TimeCycle}

omit [IsStrictOrderedRing K] in
/-- At the end of a round the end of the next one is announced. -/
theorem transitionTime_roundEnd (hc : c.IsCycle) (hk : 0 < P.elapsed time) (hdvd : c.cycleLength ∣ P.elapsed time) :
    P.transitionTime time c = some (P.unitsAfterStart (P.elapsed time + c.cycleLength)) := by
  obtain ⟨q, hq⟩ := hdvd
  have hpos : 0 < c.cycleLength := hc.length_eq ▸ hc.round.sum_pos
  have hlast := (indexAt_round hc.round q).2
  rw [← hc.length_eq, mul_comm, ← hq] at hlast
  have hmod : ((indexAt c.intervals (P.elapsed time - 1) : ℤ) + 1).tmod c.intervals.length = 0 := by
    rw [show (indexAt c.intervals (P.elapsed time - 1) : ℤ) + 1 = c.intervals.length by omega, Int.tmod_self]
  unfold transitionTime
  rw [P.loop_eq hc, Option.map_some]
  unfold currentUnit TimeCycle.intervalDivision
  dsimp only
  rw [max_eq_left (by omega), if_pos hmod, hq, Int.mul_tdiv_cancel_left _ hpos.ne']
  congr 2
  ring

/-- The step to the end of the next round. -/
theorem nextTransition_roundEnd (hc : c.IsCycle) (hlen : 1 < c.intervals.length) (hrepeat : c.repeatCount < 0)
    (hk : 0 < P.elapsed time) (hdvd : c.cycleLength ∣ P.elapsed time)
    (hstop : P.unitsAfterStart (P.elapsed time + c.cycleLength) < P.stopTime)
    (hstep : timeEpsilon < P.unitsAfterStart (P.elapsed time + c.cycleLength) - time) :
    P.timeCycleDataComputeNextTransition time (some [c]) =
      some (P.unitsAfterStart (P.elapsed time + c.cycleLength) - time) := by
  have heps : (0 : K) < timeEpsilon := by norm_num [timeEpsilon]
  have hdef : time < P.timeDefined c ∧ c.intervalDivision > 1 := by
    rw [P.timeDefined_of_neg hrepeat]
    unfold TimeCycle.intervalDivision
    constructor
    · linarith
    · omega
  have hround : P.nextTransitionStep time none c =
      some (some (P.unitsAfterStart (P.elapsed time + c.cycleLength) - time)) := by
    unfold nextTransitionStep
    rw [if_pos hdef, P.transitionTime_roundEnd hc hk hdvd, Option.map_some, P.timeDefined_of_neg hrepeat, if_pos hstop]
  unfold timeCycleDataComputeNextTransition
  rw [Option.getD_some, List.foldlM_cons, hround]
  show some (if time + (P.unitsAfterStart (P.elapsed time + c.cycleLength) - time) - time ≤ timeEpsilon then _ else _) = _
  rw [add_sub_cancel, if_neg (not_le.mpr hstep)]
  rfl

/-- Two times after the end of a round: in the same unit, and at the end of the next one. -/
theorem exists_times_roundEnd (hunit : 0 < P.baseTimeUnit) (hc : c.IsCycle) (hlen : 1 < c.intervals.length)
    (htime : 0 ≤ time) (hk : 0 < P.elapsed time) : ∃ t₁ t₂, time < t₁ ∧ t₁ < t₂ ∧
      t₂ < P.unitsAfterStart (P.elapsed time + c.cycleLength) ∧
      P.currentUnit t₁ = P.elapsed time - 1 ∧ P.currentUnit t₂ = P.elapsed time := by
  obtain ⟨t₁, hlt₁, heq₁⟩ := P.exists_discretizedTime_eq hunit htime
  have heq₂ := P.discretizedTime_units hunit (P.discretizedTime time + 1)
  refine ⟨t₁, (P.discretizedTime time + 1 : ℤ) * P.baseTimeUnit, hlt₁, ?_, ?_, ?_, ?_⟩
  · by_contra hle
    have hmono := P.discretizedTime_mono hunit (not_lt.mp hle)
    rw [heq₂, heq₁] at hmono
    omega
  · have hlt := P.discretizedTime_lt hunit P.startTime
    have hlength : (2 : ℤ) ≤ c.cycleLength := by
      rw [hc.length_eq, ← bound_length]
      have h0 := bound_lt hc.round.pos Nat.zero_lt_one hlen.le
      have h1 := bound_lt hc.round.pos hlen le_rfl
      rw [bound_zero] at h0
      omega
    have hscaled : (2 : K) * P.baseTimeUnit ≤ c.cycleLength * P.baseTimeUnit := by
      apply mul_le_mul_of_nonneg_right _ hunit.le
      exact_mod_cast hlength
    unfold unitsAfterStart elapsed
    push_cast
    linarith
  · unfold currentUnit elapsed at *
    rw [heq₁]
    omega
  · unfold currentUnit elapsed at *
    rw [heq₂]
    omega

/-- A cycle that repeats for ever steps over the transitions of the round that begins. -/
theorem not_neverStepsOver_of_roundEnd (hunit : 0 < P.baseTimeUnit) (hc : c.IsCycle) (hlen : 1 < c.intervals.length)
    (hrepeat : c.repeatCount < 0) (htime : 0 ≤ time) (hk : 0 < P.elapsed time) (hdvd : c.cycleLength ∣ P.elapsed time)
    (hstop : P.unitsAfterStart (P.elapsed time + c.cycleLength) < P.stopTime)
    (hstep : timeEpsilon < P.unitsAfterStart (P.elapsed time + c.cycleLength) - time) : ¬ P.NeverStepsOver [c] time := by
  have heps : (0 : K) < timeEpsilon := by norm_num [timeEpsilon]
  intro h
  obtain ⟨hconst, -⟩ := h _ (P.nextTransition_roundEnd hc hlen hrepeat hk hdvd hstop hstep) (heps.trans hstep)
  rw [add_sub_cancel] at hconst
  obtain ⟨t₁, t₂, hlt₁, hlt₂, hend, hunit₁, hunit₂⟩ := P.exists_times_roundEnd hunit hc hlen htime hk
  have hsame := hconst 0 Nat.one_pos t₁ t₂ hlt₁ (hlt₂.trans hend) (hlt₁.trans hlt₂) hend
  have hnumber : ∀ t, P.timeCycleDataComputeIntervalNumber t (some [c]) 0 =
      some (indexAt c.intervals (P.currentUnit t) : ℤ) := fun t => P.intervalNumber_of_repeating hc (Or.inl hrepeat)
  -- the last interval of a round and the first one of the next
  obtain ⟨q, hq⟩ := hdvd
  rw [hc.length_eq, mul_comm] at hq
  have hround := indexAt_round hc.round q
  rw [← hq] at hround
  rw [hnumber, hnumber, hunit₁, hunit₂, hround.1] at hsame
  have hzero := Option.some.inj hsame
  omega

end RoundEnd

/-! ## A concrete cycle -/

/-- Two intervals of two base time units each. -/
def onOff : TimeCycle := ⟨[2, 2], -1, 4⟩

theorem onOff_isCycle : onOff.IsCycle := ⟨⟨by decide, by decide⟩, rfl⟩

end TimingInfo

end ParFlow
