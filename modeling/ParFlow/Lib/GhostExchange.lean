import Mathlib

/-! Exchange of parts of arrays between processes. Each process has a plan of the processes it sends to
and receives from, and of the places it reads and writes for each of them. A message is the list of
values at these places. Processes and messages take their steps in any order. -/

namespace GhostExchange

variable {ι κ γ α : Type*}

/-! ## Values in messages -/

def scatter [DecidableEq κ] (data : κ → α) (places : List κ) (values : List α) : κ → α :=
  (places.zip values).foldl (fun data pv => Function.update data pv.1 pv.2) data

section Scatter

variable [DecidableEq κ]

theorem scatter_of_notMem {a : κ} {places : List κ} (ha : a ∉ places) (data : κ → α) (values : List α) :
    scatter data places values a = data a := by
  induction places generalizing data values with
  | nil => rfl
  | cons b bs ih =>
    rw [List.mem_cons, not_or] at ha
    cases values with
    | nil => rfl
    | cons x xs =>
      show scatter (Function.update data b x) bs xs a = data a
      rw [ih ha.2, Function.update_of_ne ha.1]

theorem map_scatter {places : List κ} (hnodup : places.Nodup) {values : List α} (hlen : places.length = values.length)
    (data : κ → α) : places.map (scatter data places values) = values := by
  induction places generalizing data values with
  | nil => exact (List.length_eq_zero_iff.mp hlen.symm).symm
  | cons b bs ih =>
    cases values with
    | nil => exact absurd hlen (by simp)
    | cons x xs =>
      rw [List.nodup_cons] at hnodup
      have hstep : scatter data (b :: bs) (x :: xs) = scatter (Function.update data b x) bs xs := rfl
      rw [List.map_cons, hstep, scatter_of_notMem hnodup.1, Function.update_self, ih hnodup.2 (by simpa using hlen)]

end Scatter

/-! ## Plans, states and steps -/

structure Plan (ι κ : Type*) where
  dests : ι → List ι
  srcs : ι → List ι
  /-- The places that the first process reads for the second one. -/
  out : ι → ι → List κ
  /-- The places that the first process writes for the second one. -/
  into : ι → ι → List κ

inductive Phase where
  | idle | active | finished
  deriving DecidableEq

inductive Channel (α : Type*) where
  | empty
  | transit (values : List α)
  | done

/-- The channel from one process to another, and the data of a process now and when it started. -/
structure State (ι κ α : Type*) where
  phase : ι → Phase
  started : ι → κ → α
  data : ι → κ → α
  channel : ι → ι → Channel α

section Steps

variable [DecidableEq ι] [DecidableEq κ]

def setChannel (channel : ι → ι → Channel α) (p q : ι) (ch : Channel α) : ι → ι → Channel α :=
  Function.update channel p (Function.update (channel p) q ch)

theorem setChannel_self (channel : ι → ι → Channel α) (p q : ι) (ch : Channel α) : setChannel channel p q ch p q = ch := by
  simp [setChannel]

theorem setChannel_of_ne {channel : ι → ι → Channel α} {p q p' q' : ι} {ch : Channel α} (h : ¬ (p' = p ∧ q' = q)) :
    setChannel channel p q ch p' q' = channel p' q' := by
  unfold setChannel
  by_cases hp : p' = p
  · subst hp
    rw [Function.update_self, Function.update_of_ne fun hq => h ⟨rfl, hq⟩]
  · rw [Function.update_of_ne hp]

/-- A process may compute before it starts. Its messages leave after that; the values are read when they
leave. A message arrives after its receiver has started, and a process finishes when its messages have
left and those for it have arrived. -/
inductive Step (P : Plan ι κ) : State ι κ α → State ι κ α → Prop
  | work (σ : State ι κ α) (p : ι) (d : κ → α) (h : σ.phase p = .idle) :
      Step P σ { σ with data := Function.update σ.data p d }
  | start (σ : State ι κ α) (p : ι) (h : σ.phase p = .idle) :
      Step P σ { σ with phase := Function.update σ.phase p .active, started := Function.update σ.started p (σ.data p) }
  | depart (σ : State ι κ α) (p q : ι) (h : σ.phase p = .active) (hq : q ∈ P.dests p) (hc : σ.channel p q = .empty) :
      Step P σ { σ with channel := setChannel σ.channel p q (.transit ((P.out p q).map (σ.data p))) }
  | arrive (σ : State ι κ α) (p q : ι) (values : List α) (h : σ.phase q = .active) (hp : p ∈ P.srcs q)
      (hc : σ.channel p q = .transit values) :
      Step P σ { σ with
        data := Function.update σ.data q (scatter (σ.data q) (P.into q p) values)
        channel := setChannel σ.channel p q .done }
  | finish (σ : State ι κ α) (p : ι) (h : σ.phase p = .active) (hsent : ∀ q ∈ P.dests p, σ.channel p q ≠ .empty)
      (hreceived : ∀ q ∈ P.srcs p, σ.channel q p = .done) :
      Step P σ { σ with phase := Function.update σ.phase p .finished }

def initial (data : ι → κ → α) : State ι κ α := ⟨fun _ => .idle, data, data, fun _ _ => .empty⟩

def Reachable (P : Plan ι κ) (σ : State ι κ α) : Prop := ∃ data, Relation.ReflTransGen (Step P) (initial data) σ

end Steps

/-! ## Both sides of a plan -/

/-- The two sides of each message agree, and no place is written twice or written and read. -/
structure Plan.WellFormed (P : Plan ι κ) : Prop where
  mem_iff : ∀ p q, q ∈ P.dests p ↔ p ∈ P.srcs q
  length_eq : ∀ p q, q ∈ P.dests p → (P.out p q).length = (P.into q p).length
  nodup : ∀ q, ∀ p ∈ P.srcs q, (P.into q p).Nodup
  disjoint : ∀ q, ∀ p ∈ P.srcs q, ∀ p' ∈ P.srcs q, p ≠ p' → (P.into q p).Disjoint (P.into q p')
  unread : ∀ p, ∀ q ∈ P.dests p, ∀ q' ∈ P.srcs p, (P.out p q).Disjoint (P.into p q')

/-- What holds at any time: a message carries the values that its sender started with, the places of a
message that has arrived hold them, and the other places are as they were. -/
structure Inv (P : Plan ι κ) (σ : State ι κ α) : Prop where
  transit : ∀ p q values, σ.channel p q = .transit values → q ∈ P.dests p ∧ values = (P.out p q).map (σ.started p)
  done : ∀ p q, σ.channel p q = .done → q ∈ P.dests p ∧ (P.into q p).map (σ.data q) = (P.out p q).map (σ.started p)
  frame : ∀ q a, σ.phase q ≠ .idle → (∀ p ∈ P.srcs q, σ.channel p q = .done → a ∉ P.into q p) → σ.data q a = σ.started q a
  departed : ∀ p q, σ.channel p q ≠ .empty → σ.phase p ≠ .idle
  arrived : ∀ p q, σ.channel p q = .done → σ.phase q ≠ .idle
  sent : ∀ p, σ.phase p = .finished → ∀ q ∈ P.dests p, σ.channel p q ≠ .empty
  received : ∀ p, σ.phase p = .finished → ∀ q ∈ P.srcs p, σ.channel q p = .done

theorem inv_initial (P : Plan ι κ) (data : ι → κ → α) : Inv P (initial data) where
  transit := by simp [initial]
  done := by simp [initial]
  frame := by simp [initial]
  departed := by simp [initial]
  arrived := by simp [initial]
  sent := by simp [initial]
  received := by simp [initial]

section Safety

variable {P : Plan ι κ} {σ : State ι κ α} {p q : ι}

/-- What a process reads for others is not written during the exchange. -/
theorem Inv.map_out (h : Inv P σ) (hP : P.WellFormed) (hp : σ.phase p ≠ .idle) (hq : q ∈ P.dests p) :
    (P.out p q).map (σ.data p) = (P.out p q).map (σ.started p) := by
  apply List.map_congr_left
  intro a ha
  apply h.frame p a hp
  intro q' hq' _ hin
  exact hP.unread p q hq q' hq' ha hin

variable [DecidableEq ι]

theorem Inv.work (h : Inv P σ) (d : κ → α) (hp : σ.phase p = .idle) :
    Inv P { σ with data := Function.update σ.data p d } where
  transit := h.transit
  done := by
    intro p' q' hc
    have hne : q' ≠ p := by
      rintro rfl
      exact h.arrived p' q' hc hp
    show _ ∧ (P.into q' p').map (Function.update σ.data p d q') = _
    rw [Function.update_of_ne hne]
    exact h.done p' q' hc
  frame := by
    intro q' a hq' hno
    have hne : q' ≠ p := by
      rintro rfl
      exact hq' hp
    show Function.update σ.data p d q' a = _
    rw [Function.update_of_ne hne]
    exact h.frame q' a hq' hno
  departed := h.departed
  arrived := h.arrived
  sent := h.sent
  received := h.received

/-- A new phase other than `idle` for a process that is past it or starts. -/
theorem phase_ne_idle {phase : ι → Phase} {ph : Phase} (hph : ph ≠ .idle) (p : ι) {p' : ι} (h : phase p' ≠ .idle) :
    Function.update phase p ph p' ≠ .idle := by
  by_cases hp : p' = p
  · subst hp
    rwa [Function.update_self]
  · rwa [Function.update_of_ne hp]

theorem Inv.start (h : Inv P σ) (hp : σ.phase p = .idle) :
    Inv P { σ with phase := Function.update σ.phase p .active, started := Function.update σ.started p (σ.data p) } where
  transit := by
    intro p' q' values hc
    have hne : p' ≠ p := by
      rintro rfl
      exact h.departed p' q' (by rw [hc]; simp) hp
    show _ ∧ values = (P.out p' q').map (Function.update σ.started p (σ.data p) p')
    rw [Function.update_of_ne hne]
    exact h.transit p' q' values hc
  done := by
    intro p' q' hc
    have hne : p' ≠ p := by
      rintro rfl
      exact h.departed p' q' (by rw [hc]; simp) hp
    show _ ∧ _ = (P.out p' q').map (Function.update σ.started p (σ.data p) p')
    rw [Function.update_of_ne hne]
    exact h.done p' q' hc
  frame := by
    intro q' a hq' hno
    show σ.data q' a = Function.update σ.started p (σ.data p) q' a
    by_cases hqp : q' = p
    · subst hqp
      rw [Function.update_self]
    · replace hq' : Function.update σ.phase p .active q' ≠ .idle := hq'
      rw [Function.update_of_ne hqp] at hq' ⊢
      exact h.frame q' a hq' hno
  departed := fun p' q' hc => phase_ne_idle (by simp) p (h.departed p' q' hc)
  arrived := fun p' q' hc => phase_ne_idle (by simp) p (h.arrived p' q' hc)
  sent := by
    intro p' hp' q' hq'
    replace hp' : Function.update σ.phase p .active p' = .finished := hp'
    by_cases he : p' = p
    · subst he
      rw [Function.update_self] at hp'
      exact absurd hp' (by simp)
    · rw [Function.update_of_ne he] at hp'
      exact h.sent p' hp' q' hq'
  received := by
    intro p' hp' q' hq'
    replace hp' : Function.update σ.phase p .active p' = .finished := hp'
    by_cases he : p' = p
    · subst he
      rw [Function.update_self] at hp'
      exact absurd hp' (by simp)
    · rw [Function.update_of_ne he] at hp'
      exact h.received p' hp' q' hq'

theorem Inv.depart (h : Inv P σ) (hP : P.WellFormed) (hp : σ.phase p = .active) (hq : q ∈ P.dests p)
    (hc : σ.channel p q = .empty) :
    Inv P { σ with channel := setChannel σ.channel p q (.transit ((P.out p q).map (σ.data p))) } := by
  have hdone : ∀ p' q', setChannel σ.channel p q (.transit ((P.out p q).map (σ.data p))) p' q' = .done ↔
      σ.channel p' q' = .done := by
    intro p' q'
    by_cases he : p' = p ∧ q' = q
    · obtain ⟨rfl, rfl⟩ := he
      rw [setChannel_self, hc]
      simp
    · rw [setChannel_of_ne he]
  have hempty : ∀ p' q', σ.channel p' q' ≠ .empty →
      setChannel σ.channel p q (.transit ((P.out p q).map (σ.data p))) p' q' ≠ .empty := by
    intro p' q' hne
    rw [setChannel_of_ne]
    · exact hne
    · rintro ⟨rfl, rfl⟩
      exact hne hc
  constructor
  · intro p' q' values hv
    replace hv : setChannel σ.channel p q (.transit ((P.out p q).map (σ.data p))) p' q' = .transit values := hv
    by_cases he : p' = p ∧ q' = q
    · obtain ⟨rfl, rfl⟩ := he
      rw [setChannel_self] at hv
      refine ⟨hq, ?_⟩
      rw [← Channel.transit.inj hv]
      exact h.map_out hP (by rw [hp]; simp) hq
    · rw [setChannel_of_ne he] at hv
      exact h.transit p' q' values hv
  · intro p' q' hd
    exact h.done p' q' ((hdone p' q').mp hd)
  · intro q' a hq' hno
    exact h.frame q' a hq' fun p' hp' hd => hno p' hp' ((hdone p' q').mpr hd)
  · intro p' q' hne
    replace hne : setChannel σ.channel p q (.transit ((P.out p q).map (σ.data p))) p' q' ≠ .empty := hne
    by_cases he : p' = p ∧ q' = q
    · obtain ⟨rfl, rfl⟩ := he
      show σ.phase p' ≠ .idle
      rw [hp]
      simp
    · rw [setChannel_of_ne he] at hne
      exact h.departed p' q' hne
  · intro p' q' hd
    exact h.arrived p' q' ((hdone p' q').mp hd)
  · intro p' hp' q' hq'
    exact hempty p' q' (h.sent p' hp' q' hq')
  · intro p' hp' q' hq'
    exact (hdone q' p').mpr (h.received p' hp' q' hq')

theorem Inv.finish (h : Inv P σ) (hp : σ.phase p = .active) (hsent : ∀ q ∈ P.dests p, σ.channel p q ≠ .empty)
    (hreceived : ∀ q ∈ P.srcs p, σ.channel q p = .done) :
    Inv P { σ with phase := Function.update σ.phase p .finished } where
  transit := h.transit
  done := h.done
  frame := by
    intro q' a hq' hno
    refine h.frame q' a ?_ hno
    replace hq' : Function.update σ.phase p .finished q' ≠ .idle := hq'
    by_cases hqp : q' = p
    · subst hqp
      rw [hp]
      simp
    · rwa [Function.update_of_ne hqp] at hq'
  departed := fun p' q' hc => phase_ne_idle (by simp) p (h.departed p' q' hc)
  arrived := fun p' q' hc => phase_ne_idle (by simp) p (h.arrived p' q' hc)
  sent := by
    intro p' hp' q' hq'
    replace hp' : Function.update σ.phase p .finished p' = .finished := hp'
    by_cases he : p' = p
    · subst he
      exact hsent q' hq'
    · rw [Function.update_of_ne he] at hp'
      exact h.sent p' hp' q' hq'
  received := by
    intro p' hp' q' hq'
    replace hp' : Function.update σ.phase p .finished p' = .finished := hp'
    by_cases he : p' = p
    · subst he
      exact hreceived q' hq'
    · rw [Function.update_of_ne he] at hp'
      exact h.received p' hp' q' hq'

variable [DecidableEq κ]

theorem Inv.arrive (h : Inv P σ) (hP : P.WellFormed) {values : List α} (hq : σ.phase q = .active) (hp : p ∈ P.srcs q)
    (hc : σ.channel p q = .transit values) :
    Inv P { σ with
      data := Function.update σ.data q (scatter (σ.data q) (P.into q p) values)
      channel := setChannel σ.channel p q .done } := by
  obtain ⟨hdest, hvalues⟩ := h.transit p q values hc
  have hempty : ∀ p' q', setChannel σ.channel p q .done p' q' ≠ .empty ↔ σ.channel p' q' ≠ .empty := by
    intro p' q'
    by_cases he : p' = p ∧ q' = q
    · obtain ⟨rfl, rfl⟩ := he
      rw [setChannel_self, hc]
      simp
    · rw [setChannel_of_ne he]
  have hdone : ∀ p' q', σ.channel p' q' = .done → setChannel σ.channel p q .done p' q' = .done := by
    intro p' q' hd
    by_cases he : p' = p ∧ q' = q
    · obtain ⟨rfl, rfl⟩ := he
      exact setChannel_self _ _ _ _
    · rw [setChannel_of_ne he, hd]
  constructor
  · intro p' q' values' hv
    replace hv : setChannel σ.channel p q .done p' q' = .transit values' := hv
    have he : ¬ (p' = p ∧ q' = q) := by
      rintro ⟨rfl, rfl⟩
      rw [setChannel_self] at hv
      exact absurd hv (by simp)
    rw [setChannel_of_ne he] at hv
    exact h.transit p' q' values' hv
  · intro p' q' hd
    replace hd : setChannel σ.channel p q .done p' q' = .done := hd
    show q' ∈ P.dests p' ∧ (P.into q' p').map (Function.update σ.data q (scatter (σ.data q) (P.into q p) values) q') = _
    by_cases he : p' = p ∧ q' = q
    · obtain ⟨rfl, rfl⟩ := he
      have hlen : (P.into q' p').length = values.length := by
        rw [hvalues, List.length_map, hP.length_eq p' q' hdest]
      rw [Function.update_self, map_scatter (hP.nodup q' p' hp) hlen, hvalues]
      exact ⟨hdest, rfl⟩
    · rw [setChannel_of_ne he] at hd
      obtain ⟨hdest', hmap⟩ := h.done p' q' hd
      refine ⟨hdest', ?_⟩
      rw [← hmap]
      by_cases hqq : q' = q
      · subst hqq
        rw [Function.update_self]
        apply List.map_congr_left
        intro a ha
        apply scatter_of_notMem
        intro hin
        exact hP.disjoint q' p' ((hP.mem_iff p' q').mp hdest') p hp (fun hpp => he ⟨hpp, rfl⟩) ha hin
      · rw [Function.update_of_ne hqq]
  · intro q' a hq' hno
    show Function.update σ.data q (scatter (σ.data q) (P.into q p) values) q' a = _
    have hold : σ.data q' a = σ.started q' a := h.frame q' a hq' fun p' hp' hd => hno p' hp' (hdone p' q' hd)
    by_cases hqq : q' = q
    · subst hqq
      rw [Function.update_self, scatter_of_notMem (hno p hp (setChannel_self _ _ _ _)), hold]
    · rw [Function.update_of_ne hqq, hold]
  · intro p' q' hne
    exact h.departed p' q' ((hempty p' q').mp hne)
  · intro p' q' hd
    replace hd : setChannel σ.channel p q .done p' q' = .done := hd
    by_cases he : p' = p ∧ q' = q
    · obtain ⟨rfl, rfl⟩ := he
      show σ.phase q' ≠ .idle
      rw [hq]
      simp
    · rw [setChannel_of_ne he] at hd
      exact h.arrived p' q' hd
  · intro p' hp' q' hq'
    exact (hempty p' q').mpr (h.sent p' hp' q' hq')
  · intro p' hp' q' hq'
    exact hdone q' p' (h.received p' hp' q' hq')

theorem Inv.step (h : Inv P σ) (hP : P.WellFormed) {σ' : State ι κ α} (hstep : Step P σ σ') : Inv P σ' := by
  cases hstep with
  | work p d hp => exact h.work d hp
  | start p hp => exact h.start hp
  | depart p q hp hq hc => exact h.depart hP hp hq hc
  | arrive p q values hq hp hc => exact h.arrive hP hq hp hc
  | finish p hp hsent hreceived => exact h.finish hp hsent hreceived

theorem Reachable.inv (hP : P.WellFormed) (h : Reachable P σ) : Inv P σ := by
  obtain ⟨data, hrun⟩ := h
  induction hrun with
  | refl => exact inv_initial P data
  | tail _ hstep ih => exact ih.step hP hstep

/-- A process that has finished holds the values that others started with in the places it receives, and
its own ones in all other places. -/
theorem Reachable.finished (hP : P.WellFormed) (h : Reachable P σ) (hq : σ.phase q = .finished) :
    (∀ p ∈ P.srcs q, (P.into q p).map (σ.data q) = (P.out p q).map (σ.started p)) ∧
      ∀ a, (∀ p ∈ P.srcs q, a ∉ P.into q p) → σ.data q a = σ.started q a := by
  have hinv := h.inv hP
  constructor
  · intro p hp
    exact (hinv.done p q (hinv.received q hq p hp)).2
  · intro a ha
    exact hinv.frame q a (by rw [hq]; simp) fun p hp _ => ha p hp

end Safety

/-! ## A run with one message -/

/-- A process that waits for one message only can finish with its values. -/
theorem exists_reachable_received [DecidableEq ι] [DecidableEq κ] {P : Plan ι κ} {p q : ι} (hpq : p ≠ q) (hq : q ∈ P.dests p)
    (hsrcs : P.srcs q = [p]) (hdests : P.dests q = []) (data : ι → κ → α) :
    ∃ σ : State ι κ α, Reachable P σ ∧ σ.phase q = .finished ∧ σ.started q = data q ∧
      σ.data q = scatter (data q) (P.into q p) ((P.out p q).map (data p)) := by
  have hphase : Function.update (Function.update (fun _ => Phase.idle) p .active) q .active q = .active :=
    Function.update_self _ _ _
  have hrun : Relation.ReflTransGen (Step P) (initial data) _ := .tail (.single (Step.start _ p rfl))
    (Step.start _ q (show Function.update (fun _ => Phase.idle) p .active q = .idle from Function.update_of_ne hpq.symm _ _))
  replace hrun := hrun.tail (Step.depart _ p q
    (show Function.update (Function.update (fun _ => Phase.idle) p .active) q .active p = .active by
      rw [Function.update_of_ne hpq, Function.update_self]) hq rfl)
  replace hrun := hrun.tail (Step.arrive _ p q _ hphase (hsrcs ▸ List.mem_singleton_self p) (setChannel_self _ p q _))
  replace hrun := hrun.tail (Step.finish _ q hphase (by simp [hdests]) (by
    intro p' hp'
    rw [hsrcs, List.mem_singleton] at hp'
    subst hp'
    exact setChannel_self _ p' q _))
  refine ⟨_, ⟨data, hrun⟩, Function.update_self _ _ _, ?_, ?_⟩
  · show Function.update (Function.update data p (data p)) q (data q) q = data q
    rw [Function.update_self]
  · show Function.update data q (scatter (data q) (P.into q p) ((P.out p q).map (data p))) q = _
    rw [Function.update_self]

/-! ## The start of a run -/

section Started

variable [DecidableEq ι] [DecidableEq κ] {P : Plan ι κ} {σ σ' : State ι κ α} {p : ι}

theorem Step.started_eq (h : Step P σ σ') (hp : σ.phase p ≠ .idle) : σ'.phase p ≠ .idle ∧ σ'.started p = σ.started p := by
  cases h with
  | work q d _ => exact ⟨hp, rfl⟩
  | start q hq =>
    have hne : p ≠ q := by
      rintro rfl
      exact hp hq
    show Function.update σ.phase q .active p ≠ .idle ∧ Function.update σ.started q (σ.data q) p = σ.started p
    rw [Function.update_of_ne hne, Function.update_of_ne hne]
    exact ⟨hp, rfl⟩
  | depart q q' _ _ _ => exact ⟨hp, rfl⟩
  | arrive q q' _ _ _ _ => exact ⟨hp, rfl⟩
  | finish q _ _ _ =>
    refine ⟨?_, rfl⟩
    show Function.update σ.phase q .finished p ≠ .idle
    by_cases hpq : p = q
    · rw [hpq, Function.update_self]
      decide
    · rwa [Function.update_of_ne hpq]

/-- A process keeps the data with which it has started. -/
theorem run_started_eq (h : Relation.ReflTransGen (Step P) σ σ') (hp : σ.phase p ≠ .idle) :
    σ'.phase p ≠ .idle ∧ σ'.started p = σ.started p := by
  induction h with
  | refl => exact ⟨hp, rfl⟩
  | tail _ hstep ih =>
    obtain ⟨hphase, hstarted⟩ := hstep.started_eq ih.1
    exact ⟨hphase, hstarted.trans ih.2⟩

/-- Any processes can start with given data. -/
theorem exists_started (P : Plan ι κ) (data : ι → κ → α) (l : List ι) :
    ∃ σ, Relation.ReflTransGen (Step P) (initial data) σ ∧ σ.data = data ∧ σ.started = data ∧
      ∀ p ∈ l, σ.phase p ≠ .idle := by
  induction l with
  | nil => exact ⟨initial data, .refl, rfl, rfl, fun p hp => absurd hp List.not_mem_nil⟩
  | cons p l ih =>
    obtain ⟨σ, hrun, hdata, hstarted, hphase⟩ := ih
    by_cases hp : σ.phase p = .idle
    · refine ⟨_, hrun.tail (.start σ p hp), hdata, ?_, ?_⟩
      · show Function.update σ.started p (σ.data p) = data
        rw [hdata, hstarted, Function.update_eq_self]
      · intro q hq
        show Function.update σ.phase p .active q ≠ .idle
        by_cases hqp : q = p
        · rw [hqp, Function.update_self]
          decide
        · rw [Function.update_of_ne hqp]
          exact hphase q ((List.mem_cons.mp hq).resolve_left hqp)
    · refine ⟨σ, hrun, hdata, hstarted, fun q hq => ?_⟩
      rcases List.mem_cons.mp hq with rfl | hq
      · exact hp
      · exact hphase q hq

end Started

/-! ## Progress -/

def Phase.remaining : Phase → ℕ
  | .idle => 2
  | .active => 1
  | .finished => 0

def Channel.remaining : Channel α → ℕ
  | .empty => 2
  | .transit _ => 1
  | .done => 0

/-- The steps left to a set of processes. -/
def State.remaining (σ : State ι κ α) (R : Finset ι) : ℕ :=
  (∑ p ∈ R, (σ.phase p).remaining) + ∑ e ∈ R ×ˢ R, (σ.channel e.1 e.2).remaining

section Progress

variable [DecidableEq ι] {P : Plan ι κ} {σ : State ι κ α} {R : Finset ι} {p q : ι}

theorem sum_phase_lt (hp : p ∈ R) {ph : Phase} (h : ph.remaining < (σ.phase p).remaining) :
    ∑ p' ∈ R, (Function.update σ.phase p ph p').remaining < ∑ p' ∈ R, (σ.phase p').remaining := by
  apply Finset.sum_lt_sum
  · intro p' _
    by_cases he : p' = p
    · subst he
      rw [Function.update_self]
      exact h.le
    · rw [Function.update_of_ne he]
  · exact ⟨p, hp, by rwa [Function.update_self]⟩

theorem sum_channel_lt (hp : p ∈ R) (hq : q ∈ R) {ch : Channel α} (h : ch.remaining < (σ.channel p q).remaining) :
    ∑ e ∈ R ×ˢ R, (setChannel σ.channel p q ch e.1 e.2).remaining < ∑ e ∈ R ×ˢ R, (σ.channel e.1 e.2).remaining := by
  apply Finset.sum_lt_sum
  · intro e _
    by_cases he : e.1 = p ∧ e.2 = q
    · rw [he.1, he.2, setChannel_self]
      exact h.le
    · rw [setChannel_of_ne he]
  · exact ⟨(p, q), Finset.mk_mem_product hp hq, by rwa [setChannel_self]⟩

variable [DecidableEq κ]

/-- Unless all processes have finished, one of them or one of the messages can take a step. -/
theorem Inv.progress (h : Inv P σ) (hP : P.WellFormed) (hR : ∀ p ∈ R, ∀ q ∈ P.dests p, q ∈ R)
    (hR' : ∀ p ∈ R, ∀ q ∈ P.srcs p, q ∈ R) (hp : p ∈ R) (hunfinished : σ.phase p ≠ .finished) :
    ∃ σ', Step P σ σ' ∧ σ'.remaining R < σ.remaining R := by
  have hactive : ∀ {p}, σ.phase p ≠ .idle → σ.phase p ≠ .finished → σ.phase p = .active := by
    intro p h₁ h₂
    cases hph : σ.phase p with
    | idle => exact absurd hph h₁
    | active => rfl
    | finished => exact absurd hph h₂
  by_cases hidle : ∃ p ∈ R, σ.phase p = .idle
  · obtain ⟨p, hp, hi⟩ := hidle
    refine ⟨_, Step.start σ p hi, Nat.add_lt_add_right (sum_phase_lt hp ?_) _⟩
    rw [hi]
    decide
  have hstarted : ∀ p ∈ R, σ.phase p ≠ .idle := fun p hp hi => hidle ⟨p, hp, hi⟩
  by_cases hempty : ∃ p ∈ R, ∃ q ∈ P.dests p, σ.channel p q = .empty
  · obtain ⟨p, hp, q, hq, hc⟩ := hempty
    have hph := hactive (hstarted p hp) fun hf => h.sent p hf q hq hc
    refine ⟨_, Step.depart σ p q hph hq hc, Nat.add_lt_add_left (sum_channel_lt hp (hR p hp q hq) ?_) _⟩
    rw [hc]
    exact Nat.one_lt_two
  by_cases htransit : ∃ p ∈ R, ∃ q ∈ P.dests p, ∃ values, σ.channel p q = .transit values
  · obtain ⟨p, hp, q, hq, values, hc⟩ := htransit
    have hsrc := (hP.mem_iff p q).mp hq
    have hph : σ.phase q = .active := by
      apply hactive (hstarted q (hR p hp q hq))
      intro hf
      have hdone := h.received q hf p hsrc
      rw [hc] at hdone
      exact absurd hdone (by simp)
    refine ⟨_, Step.arrive σ p q values hph hsrc hc, Nat.add_lt_add_left (sum_channel_lt hp (hR p hp q hq) ?_) _⟩
    rw [hc]
    exact Nat.zero_lt_one
  -- all messages have arrived
  have hdone : ∀ p ∈ R, ∀ q ∈ P.dests p, σ.channel p q = .done := by
    intro p hp q hq
    cases hc : σ.channel p q with
    | empty => exact absurd ⟨p, hp, q, hq, hc⟩ hempty
    | transit values => exact absurd ⟨p, hp, q, hq, values, hc⟩ htransit
    | done => rfl
  have hph := hactive (hstarted p hp) hunfinished
  refine ⟨_, Step.finish σ p hph ?_ ?_, Nat.add_lt_add_right (sum_phase_lt hp ?_) _⟩
  · intro q hq
    rw [hdone p hp q hq]
    simp
  · intro q hq
    exact hdone q (hR' p hp q hq) p ((hP.mem_iff q p).mpr hq)
  · rw [hph]
    decide

/-- No process waits for ever: from any state of a run, all processes can finish. -/
theorem Reachable.exists_finished (hP : P.WellFormed) (hR : ∀ p ∈ R, ∀ q ∈ P.dests p, q ∈ R)
    (hR' : ∀ p ∈ R, ∀ q ∈ P.srcs p, q ∈ R) (h : Reachable P σ) :
    ∃ σ', Relation.ReflTransGen (Step P) σ σ' ∧ ∀ p ∈ R, σ'.phase p = .finished := by
  induction hn : σ.remaining R using Nat.strong_induction_on generalizing σ with
  | _ n ih =>
    by_cases hall : ∀ p ∈ R, σ.phase p = .finished
    · exact ⟨σ, .refl, hall⟩
    · push Not at hall
      obtain ⟨p, hp, hunfinished⟩ := hall
      obtain ⟨σ', hstep, hlt⟩ := (h.inv hP).progress hP hR hR' hp hunfinished
      obtain ⟨data, hrun⟩ := h
      obtain ⟨σ'', hrun', hall⟩ := ih _ (hn ▸ hlt) ⟨data, hrun.tail hstep⟩ rfl
      exact ⟨σ'', .head hstep hrun', hall⟩

end Progress

/-! ## Common keys -/

/-- Both sides of a message go through the same keys, and each process has its own place for a key. A
process sends keys that it owns, and receives keys that another process owns. -/
structure Plan.Keyed (P : Plan ι κ) (keys : ι → ι → List γ) (place : ι → γ → κ) (own space : ι → Set γ) : Prop where
  mem_dests : ∀ p q, q ∈ P.dests p ↔ keys p q ≠ []
  mem_srcs : ∀ p q, p ∈ P.srcs q ↔ keys p q ≠ []
  out_eq : ∀ p q, keys p q ≠ [] → P.out p q = (keys p q).map (place p)
  into_eq : ∀ p q, keys p q ≠ [] → P.into q p = (keys p q).map (place q)
  nodup : ∀ p q, (keys p q).Nodup
  owned : ∀ p q, ∀ k ∈ keys p q, k ∈ own p
  foreign : ∀ p q, ∀ k ∈ keys p q, k ∈ space q ∧ k ∉ own q
  own_subset : ∀ p, own p ⊆ space p
  own_unique : ∀ p p', ∀ k ∈ own p, k ∈ own p' → p = p'
  place_injOn : ∀ p, Set.InjOn (place p) (space p)

section Keyed

variable {P : Plan ι κ} {keys : ι → ι → List γ} {place : ι → γ → κ} {own space : ι → Set γ} {σ : State ι κ α} {p q : ι}

theorem Plan.Keyed.wellFormed (h : P.Keyed keys place own space) : P.WellFormed where
  mem_iff := fun p q => (h.mem_dests p q).trans (h.mem_srcs p q).symm
  length_eq := by
    intro p q hq
    have hne := (h.mem_dests p q).mp hq
    rw [h.out_eq p q hne, h.into_eq p q hne, List.length_map, List.length_map]
  nodup := by
    intro q p hp
    rw [h.into_eq p q ((h.mem_srcs p q).mp hp)]
    apply List.Nodup.map_on _ (h.nodup p q)
    intro k hk k' hk' he
    exact h.place_injOn q (h.foreign p q k hk).1 (h.foreign p q k' hk').1 he
  disjoint := by
    intro q p hp p' hp' hne
    rw [h.into_eq p q ((h.mem_srcs p q).mp hp), h.into_eq p' q ((h.mem_srcs p' q).mp hp')]
    intro a ha ha'
    obtain ⟨k, hk, rfl⟩ := List.mem_map.mp ha
    obtain ⟨k', hk', he⟩ := List.mem_map.mp ha'
    rw [h.place_injOn q (h.foreign p' q k' hk').1 (h.foreign p q k hk).1 he] at hk'
    exact hne (h.own_unique p p' k (h.owned p q k hk) (h.owned p' q k hk'))
  unread := by
    intro p q hq q' hq'
    rw [h.out_eq p q ((h.mem_dests p q).mp hq), h.into_eq q' p ((h.mem_srcs q' p).mp hq')]
    intro a ha ha'
    obtain ⟨k, hk, rfl⟩ := List.mem_map.mp ha
    obtain ⟨k', hk', he⟩ := List.mem_map.mp ha'
    have hown := h.owned p q k hk
    rw [h.place_injOn p (h.foreign q' p k' hk').1 (h.own_subset p hown) he] at hk'
    exact (h.foreign q' p k hk').2 hown

variable [DecidableEq ι] [DecidableEq κ]

/-- A process that has finished holds the owners' values at the keys that it receives, and its own ones at
all others. -/
theorem Reachable.finished_keys (hP : P.Keyed keys place own space) (h : Reachable P σ) (hq : σ.phase q = .finished) :
    (∀ p, ∀ k ∈ keys p q, σ.data q (place q k) = σ.started p (place p k)) ∧
      ∀ k ∈ space q, (∀ p, k ∉ keys p q) → σ.data q (place q k) = σ.started q (place q k) := by
  obtain ⟨hreceived, hothers⟩ := h.finished hP.wellFormed hq
  constructor
  · intro p k hk
    have hne : keys p q ≠ [] := List.ne_nil_of_mem hk
    have hmap := hreceived p ((hP.mem_srcs p q).mpr hne)
    rw [hP.into_eq p q hne, hP.out_eq p q hne, List.map_map, List.map_map] at hmap
    exact List.map_inj_left.mp hmap k hk
  · intro k hk hno
    apply hothers
    intro p hp hin
    rw [hP.into_eq p q ((hP.mem_srcs p q).mp hp)] at hin
    obtain ⟨k', hk', he⟩ := List.mem_map.mp hin
    rw [hP.place_injOn q (hP.foreign p q k' hk').1 hk he] at hk'
    exact hno p hk'

end Keyed

end GhostExchange
