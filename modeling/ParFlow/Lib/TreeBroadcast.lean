import Mathlib

/-! Programs of blocking sends and receives, and the broadcast of a value along a tree. A send may leave
its message in transit or wait for the receive that takes it; a process that waits for the receive is
blocked until the receiver is there. Messages of one pair of processes keep their order. -/

namespace TreeBroadcast

variable {ι α : Type*}

inductive Op (ι : Type*) where
  | send (dest : ι)
  | recv (src : ι)
  deriving DecidableEq

structure State (ι α : Type*) where
  todo : ι → List (Op ι)
  data : ι → α
  /-- The messages in transit from the first process to the second one. -/
  chan : ι × ι → List α
  /-- The addresses of the messages that a process has sent. -/
  sent : ι → List ι
  /-- The senders of the messages that a process has received. -/
  got : ι → List ι

section Steps

variable [DecidableEq ι]

def State.post (s : State ι α) (p q : ι) (rest : List (Op ι)) : State ι α :=
  { s with
    todo := Function.update s.todo p rest
    chan := Function.update s.chan (p, q) (s.chan (p, q) ++ [s.data p])
    sent := Function.update s.sent p (s.sent p ++ [q]) }

def State.take (s : State ι α) (q p : ι) (rest : List (Op ι)) (v : α) (vs : List α) : State ι α :=
  { s with
    todo := Function.update s.todo q rest
    data := Function.update s.data q v
    chan := Function.update s.chan (p, q) vs
    got := Function.update s.got q (s.got q ++ [p]) }

/-- A message is put in transit, is taken out of it, or goes from a waiting sender to its receiver. -/
inductive Step : State ι α → State ι α → Prop where
  | post {s p q rest} (h : s.todo p = .send q :: rest) : Step s (s.post p q rest)
  | take {s p q rest v vs} (h : s.todo q = .recv p :: rest) (hc : s.chan (p, q) = v :: vs) :
      Step s (s.take q p rest v vs)
  | meet {s p q rp rq} (hp : s.todo p = .send q :: rp) (hq : s.todo q = .recv p :: rq) (hc : s.chan (p, q) = []) :
      Step s ((s.post p q rp).take q p rq (s.data p) [])

def Reachable : State ι α → State ι α → Prop := Relation.ReflTransGen Step

def start (program : ι → List (Op ι)) (data : ι → α) : State ι α :=
  ⟨program, data, fun _ => [], fun _ => [], fun _ => []⟩

def Finished (s : State ι α) : Prop := ∀ p, s.todo p = []

/-- The process can take part in a step even if no message may be left in transit. -/
def Ready (s : State ι α) (p : ι) : Prop :=
  (∃ q rest, s.todo p = .recv q :: rest ∧ s.chan (q, p) ≠ []) ∨
    (∃ q rp rq, s.todo p = .send q :: rp ∧ s.todo q = .recv p :: rq ∧ s.chan (p, q) = []) ∨
    ∃ q rp rq, s.todo p = .recv q :: rp ∧ s.todo q = .send p :: rq ∧ s.chan (q, p) = []

def Blocked (s : State ι α) (p : ι) : Prop := s.todo p ≠ [] ∧ ¬ Ready s p

theorem Ready.exists_step {s : State ι α} {p : ι} (h : Ready s p) : ∃ s', Step s s' := by
  obtain ⟨q, rest, hp, hc⟩ | ⟨q, rp, rq, hp, hq, hc⟩ | ⟨q, rp, rq, hp, hq, hc⟩ := h
  · obtain ⟨v, vs, hv⟩ := List.exists_cons_of_ne_nil hc
    exact ⟨_, .take hp hv⟩
  · exact ⟨_, .meet hp hq hc⟩
  · exact ⟨_, .meet hq hp hc⟩

/-- A message that goes straight to its receiver could as well have been in transit for a moment. -/
theorem post_take {s : State ι α} {p q : ι} {rp rq : List (Op ι)} (hp : s.todo p = .send q :: rp)
    (hq : s.todo q = .recv p :: rq) (hc : s.chan (p, q) = []) :
    (s.post p q rp).todo q = .recv p :: rq ∧ (s.post p q rp).chan (p, q) = [s.data p] := by
  have hne : q ≠ p := by
    rintro rfl
    simp [hp] at hq
  constructor
  · show Function.update s.todo p rp q = _
    rw [Function.update_of_ne hne, hq]
  · show Function.update s.chan (p, q) _ (p, q) = _
    rw [Function.update_self, hc, List.nil_append]

end Steps

/-! ## Broadcast along a tree -/

/-- A tree on a finite set of processes, with the children of each process in the order in which it serves them. -/
structure Tree (ι : Type*) where
  nodes : Finset ι
  root : ι
  parent : ι → ι
  children : ι → List ι
  depth : ι → ℕ
  root_mem : root ∈ nodes
  parent_mem : ∀ c ∈ nodes, c ≠ root → parent c ∈ nodes
  mem_children : ∀ p ∈ nodes, ∀ c, c ∈ children p ↔ c ∈ nodes ∧ c ≠ root ∧ parent c = p
  nodup_children : ∀ p ∈ nodes, (children p).Nodup
  depth_parent : ∀ c ∈ nodes, c ≠ root → depth (parent c) < depth c

namespace Tree

variable [DecidableEq ι] (t : Tree ι)

/-- A process waits for its parent and then serves its children. -/
def program (p : ι) : List (Op ι) :=
  if p ∈ t.nodes then (if p = t.root then [] else [.recv (t.parent p)]) ++ (t.children p).map .send else []

/-- A process that has not received its message yet. -/
def Waits (s : State ι α) (p : ι) : Prop :=
  p ≠ t.root ∧ s.todo p = .recv (t.parent p) :: (t.children p).map .send ∧ s.got p = [] ∧ s.sent p = []

/-- A process that holds the value of the root and has served the first of its children. -/
def Serves (value : α) (s : State ι α) (p : ι) : Prop :=
  s.data p = value ∧ s.got p = (if p = t.root then [] else [t.parent p]) ∧
    ∃ rest, t.children p = s.sent p ++ rest ∧ s.todo p = rest.map .send

structure Inv (value : α) (s : State ι α) : Prop where
  outside : ∀ p ∉ t.nodes, s.todo p = [] ∧ s.sent p = [] ∧ s.got p = []
  phase : ∀ p ∈ t.nodes, t.Waits s p ∨ t.Serves value s p
  served : ∀ q, s.got q ≠ [] → q ∈ s.sent (t.parent q)
  chan : ∀ p q, s.chan (p, q) = if q ∈ s.sent p ∧ s.got q = [] then [value] else []

variable {t} {value : α} {s : State ι α}

theorem inv_start (data : ι → α) : t.Inv (data t.root) (start t.program data) where
  outside p hp := ⟨if_neg hp, rfl, rfl⟩
  phase p hp := by
    by_cases hroot : p = t.root
    · subst hroot
      exact .inr ⟨rfl, (if_pos rfl).symm, t.children t.root, rfl, by simp [start, program, t.root_mem]⟩
    · exact .inl ⟨hroot, by simp [start, program, hp, hroot], rfl, rfl⟩
  served q hq := absurd rfl hq
  chan p q := by simp [start]

/-- A process that sends holds the value of the root. -/
theorem Inv.serves_of_send (h : t.Inv value s) {p q : ι} {rest : List (Op ι)} (hp : s.todo p = .send q :: rest) :
    p ∈ t.nodes ∧ t.Serves value s p := by
  have hmem : p ∈ t.nodes := by
    by_contra hmem
    simp [(h.outside p hmem).1] at hp
  obtain hw | hs := h.phase p hmem
  · simp [hw.2.1] at hp
  · exact ⟨hmem, hs⟩

/-- Only its parent sends to a process. -/
theorem Inv.parent_of_sent (h : t.Inv value s) {p q : ι} (hq : q ∈ s.sent p) :
    p ∈ t.nodes ∧ q ∈ t.nodes ∧ q ≠ t.root ∧ t.parent q = p := by
  have hmem : p ∈ t.nodes := by
    by_contra hmem
    simp [(h.outside p hmem).2.1] at hq
  obtain ⟨-, -, -, hsent⟩ | ⟨-, -, rest, hsplit, -⟩ := h.phase p hmem
  · simp [hsent] at hq
  · refine ⟨hmem, (t.mem_children p hmem q).mp ?_⟩
    rw [hsplit]
    exact List.mem_append_left _ hq

theorem Inv.waits_of_recv (h : t.Inv value s) {p q : ι} {rest : List (Op ι)} (hq : s.todo q = .recv p :: rest) :
    q ∈ t.nodes ∧ p = t.parent q ∧ t.Waits s q ∧ rest = (t.children q).map .send := by
  have hmem : q ∈ t.nodes := by
    by_contra hmem
    simp [(h.outside q hmem).1] at hq
  obtain hw | ⟨-, -, rest', -, hs⟩ := h.phase q hmem
  · have hops := hw.2.1
    rw [hq, List.cons_eq_cons, Op.recv.injEq] at hops
    exact ⟨hmem, hops.1, hw, hops.2⟩
  · cases rest' <;> simp [hs] at hq

/-- The addressee of a message that is sent waits for it. -/
theorem Inv.waits_dest (h : t.Inv value s) {p q : ι} {rest : List (Op ι)} (hp : s.todo p = .send q :: rest) :
    q ∈ t.nodes ∧ q ≠ t.root ∧ t.parent q = p ∧ q ∉ s.sent p ∧ s.got q = [] := by
  obtain ⟨hmem, -, -, todo, hsplit, htodo⟩ := h.serves_of_send hp
  obtain ⟨c, cs, rfl, hc, -⟩ := List.map_eq_cons_iff.mp (htodo.symm.trans hp)
  obtain rfl : c = q := Op.send.inj hc
  have hchild : c ∈ t.children p := by simp [hsplit]
  obtain ⟨hcmem, hroot, hparent⟩ := (t.mem_children p hmem c).mp hchild
  have hfresh : c ∉ s.sent p := by
    have hnodup := t.nodup_children p hmem
    rw [hsplit, List.nodup_append] at hnodup
    intro hc
    exact hnodup.2.2 c hc c List.mem_cons_self rfl
  refine ⟨hcmem, hroot, hparent, hfresh, ?_⟩
  by_contra hgot
  have hserved := h.served c hgot
  rw [hparent] at hserved
  exact hfresh hserved

theorem Inv.post (h : t.Inv value s) {p q : ι} {rest : List (Op ι)} (hp : s.todo p = .send q :: rest) :
    t.Inv value (s.post p q rest) := by
  obtain ⟨hmem, hdata, hgot, todo, hsplit, htodo⟩ := h.serves_of_send hp
  obtain ⟨-, -, -, hfresh, hgotq⟩ := h.waits_dest hp
  obtain ⟨c, cs, rfl, hc, hcs⟩ := List.map_eq_cons_iff.mp (htodo.symm.trans hp)
  obtain rfl : c = q := Op.send.inj hc
  constructor
  · intro a ha
    have hap : a ≠ p := fun hap => ha (hap ▸ hmem)
    simp only [State.post, Function.update_of_ne hap]
    exact h.outside a ha
  · intro a ha
    by_cases hap : a = p
    · subst hap
      right
      refine ⟨hdata, hgot, cs, ?_, ?_⟩
      · simp [State.post, hsplit]
      · simp [State.post, hcs]
    · have hphase := h.phase a ha
      unfold Waits Serves at hphase ⊢
      simpa only [State.post, Function.update_of_ne hap] using hphase
  · intro a ha
    have hserved := h.served a ha
    by_cases hpar : t.parent a = p
    · rw [hpar] at hserved ⊢
      simp [State.post, hserved]
    · simpa only [State.post, Function.update_of_ne hpar] using hserved
  · intro a b
    have hchan := h.chan a b
    by_cases hap : a = p
    · subst hap
      by_cases hbc : b = c
      · subst hbc
        rw [if_neg (fun hb => hfresh hb.1)] at hchan
        simp [State.post, hchan, hdata, hgotq]
      · simp [State.post, hchan, hbc]
    · have hne : (a, b) ≠ (p, c) := fun he => hap (Prod.mk.inj he).1
      simp only [State.post, Function.update_of_ne hne, Function.update_of_ne hap, hchan]

theorem Inv.take (h : t.Inv value s) {p q : ι} {rest : List (Op ι)} {v : α} {vs : List α}
    (hq : s.todo q = .recv p :: rest) (hc : s.chan (p, q) = v :: vs) : t.Inv value (s.take q p rest v vs) := by
  obtain ⟨hmem, hpar, ⟨hroot, -, hgot, hsent⟩, hrest⟩ := h.waits_of_recv hq
  have hchan := h.chan p q
  have hserved : q ∈ s.sent p := by
    by_contra hno
    rw [if_neg (fun hb => hno hb.1), hc] at hchan
    exact absurd hchan (List.cons_ne_nil _ _)
  rw [if_pos ⟨hserved, hgot⟩, hc, List.cons_eq_cons] at hchan
  obtain ⟨rfl, rfl⟩ := hchan
  constructor
  · intro a ha
    have haq : a ≠ q := fun haq => ha (haq ▸ hmem)
    simp only [State.take, Function.update_of_ne haq]
    exact h.outside a ha
  · intro a ha
    by_cases haq : a = q
    · subst haq
      right
      refine ⟨by simp [State.take], ?_, t.children a, ?_, ?_⟩
      · simp [State.take, hgot, hroot, hpar]
      · simp [State.take, hsent]
      · simp [State.take, hrest]
    · have hphase := h.phase a ha
      unfold Waits Serves at hphase ⊢
      simpa only [State.take, Function.update_of_ne haq] using hphase
  · intro a ha
    by_cases haq : a = q
    · subst haq
      rw [← hpar]
      exact hserved
    · simp only [State.take, Function.update_of_ne haq] at ha
      exact h.served a ha
  · intro a b
    by_cases hbq : b = q
    · subst hbq
      have hnot : ¬ (b ∈ s.sent a ∧ Function.update s.got b (s.got b ++ [p]) b = []) := by simp
      show Function.update s.chan (p, b) [] (a, b) = if b ∈ s.sent a ∧ Function.update s.got b (s.got b ++ [p]) b = [] then _ else _
      rw [if_neg hnot]
      by_cases hap : a = p
      · rw [hap, Function.update_self]
      · -- only the parent sends to this process
        have hne : (a, b) ≠ (p, b) := fun he => hap (Prod.mk.inj he).1
        rw [Function.update_of_ne hne, h.chan a b, if_neg]
        intro hb
        exact hap ((h.parent_of_sent hb.1).2.2.2.symm.trans hpar.symm)
    · have hne : (a, b) ≠ (p, q) := fun he => hbq (Prod.mk.inj he).2
      simp only [State.take, Function.update_of_ne hne, Function.update_of_ne hbq, h.chan]

theorem Inv.step (h : t.Inv value s) {s' : State ι α} (hstep : Step s s') : t.Inv value s' := by
  cases hstep with
  | post hp => exact h.post hp
  | take hq hc => exact h.take hq hc
  | meet hp hq hc =>
    obtain ⟨hq', hc'⟩ := post_take hp hq hc
    exact (h.post hp).take hq' hc'

theorem inv_of_reachable {data : ι → α} (h : Reachable (start t.program data) s) : t.Inv (data t.root) s := by
  induction h with
  | refl => exact inv_start data
  | tail _ hstep ih => exact ih.step hstep

/-! ## Progress -/

/-- Of the processes that are not finished one that is nearest to the root can go on. -/
theorem Inv.exists_ready (h : t.Inv value s) {p : ι} (hp : s.todo p ≠ []) : ∃ p, s.todo p ≠ [] ∧ Ready s p := by
  obtain ⟨p, hp, hmin⟩ := WellFounded.has_min (measure t.depth).wf {p | s.todo p ≠ []} ⟨p, hp⟩
  have hmem : p ∈ t.nodes := by
    by_contra hmem
    exact hp (h.outside p hmem).1
  refine ⟨p, hp, ?_⟩
  obtain ⟨hroot, htodo, hgot, -⟩ | ⟨-, -, rest, -, htodo⟩ := h.phase p hmem
  · -- the parent is finished, so the message is in transit
    have hparent : s.todo (t.parent p) = [] := by
      by_contra hne
      exact hmin (t.parent p) hne (t.depth_parent p hmem hroot)
    left
    refine ⟨t.parent p, _, htodo, ?_⟩
    have hparent_mem := t.parent_mem p hmem hroot
    have hsent : p ∈ s.sent (t.parent p) := by
      obtain ⟨-, hwaits, -⟩ | ⟨-, -, rest, hsplit, hrest⟩ := h.phase _ hparent_mem
      · simp [hparent] at hwaits
      · have hnil : rest = [] := List.map_eq_nil_iff.mp (hrest.symm.trans hparent)
        rw [hnil, List.append_nil] at hsplit
        rw [← hsplit]
        exact (t.mem_children _ hparent_mem p).mpr ⟨hmem, hroot, rfl⟩
    rw [h.chan, if_pos ⟨hsent, hgot⟩]
    exact List.cons_ne_nil _ _
  · -- the next child waits for this process
    obtain ⟨op, ops, hops⟩ := List.exists_cons_of_ne_nil hp
    obtain ⟨c, cs, rfl, rfl, -⟩ := List.map_eq_cons_iff.mp (htodo.symm.trans hops)
    obtain ⟨hcmem, hcroot, hcparent, hfresh, hcgot⟩ := h.waits_dest hops
    right; left
    obtain ⟨-, hwaits, -⟩ | ⟨-, hgot, -⟩ := h.phase c hcmem
    · rw [hcparent] at hwaits
      exact ⟨c, ops, _, hops, hwaits, by rw [h.chan, if_neg (fun hb => hfresh hb.1)]⟩
    · simp [hcgot, hcroot] at hgot

/-- The operations that are left to all processes. -/
def pending (t : Tree ι) (s : State ι α) : ℕ := ∑ p ∈ t.nodes, (s.todo p).length

theorem pending_update {p : ι} (hp : p ∈ t.nodes) {op : Op ι} {rest : List (Op ι)} {s s' : State ι α}
    (htodo : s.todo p = op :: rest) (hs' : s'.todo = Function.update s.todo p rest) : t.pending s' < t.pending s := by
  unfold pending
  rw [hs']
  apply Finset.sum_lt_sum
  · intro a _
    by_cases hap : a = p
    · subst hap
      simp [htodo]
    · rw [Function.update_of_ne hap]
  · exact ⟨p, hp, by simp [htodo]⟩

theorem Inv.pending_lt (h : t.Inv value s) {s' : State ι α} (hstep : Step s s') : t.pending s' < t.pending s := by
  cases hstep with
  | post hp => exact pending_update (h.serves_of_send hp).1 hp rfl
  | take hq hc => exact pending_update (h.waits_of_recv hq).1 hq rfl
  | @meet p q rp rq hp hq hc =>
    obtain ⟨hq', -⟩ := post_take hp hq hc
    calc t.pending ((s.post p q rp).take q p rq (s.data p) [])
        < t.pending (s.post p q rp) := pending_update ((h.post hp).waits_of_recv hq').1 hq' rfl
      _ < t.pending s := pending_update (h.serves_of_send hp).1 hp rfl

/-- No run goes on for ever. -/
theorem Inv.acc_step (h : t.Inv value s) : Acc (fun s' s => Step s s') s := by
  induction hn : t.pending s using Nat.strong_induction_on generalizing s with
  | _ n ih =>
    constructor
    intro s' hstep
    exact ih (t.pending s') (hn ▸ h.pending_lt hstep) (h.step hstep) rfl

theorem Inv.exists_finished (h : t.Inv value s) : ∃ s', Reachable s s' ∧ Finished s' := by
  induction h.acc_step with
  | intro s _ ih =>
    by_cases hfin : Finished s
    · exact ⟨s, .refl, hfin⟩
    · obtain ⟨p, hp⟩ := not_forall.mp hfin
      obtain ⟨q, -, hready⟩ := h.exists_ready hp
      obtain ⟨s', hstep⟩ := hready.exists_step
      obtain ⟨s'', hreach, hfin⟩ := ih s' hstep (h.step hstep)
      exact ⟨s'', .head hstep hreach, hfin⟩

/-! ## What the processes have received -/

theorem Inv.got_root (h : t.Inv value s) : s.got t.root = [] := by
  obtain ⟨hroot, -⟩ | ⟨-, hgot, -⟩ := h.phase t.root t.root_mem
  · exact absurd rfl hroot
  · simpa using hgot

theorem Inv.got_eq (h : t.Inv value s) {p : ι} (hp : p ∈ t.nodes) (hroot : p ≠ t.root) :
    s.got p = [] ∨ s.got p = [t.parent p] := by
  obtain ⟨-, -, hgot, -⟩ | ⟨-, hgot, -⟩ := h.phase p hp
  · exact .inl hgot
  · rw [if_neg hroot] at hgot
    exact .inr hgot

theorem Inv.of_todo_nil (h : t.Inv value s) {p : ι} (hp : p ∈ t.nodes) (htodo : s.todo p = []) :
    s.data p = value ∧ s.got p = (if p = t.root then [] else [t.parent p]) ∧ s.sent p = t.children p := by
  obtain ⟨-, hwaits, -⟩ | ⟨hdata, hgot, rest, hsplit, hrest⟩ := h.phase p hp
  · simp [htodo] at hwaits
  · have hnil : rest = [] := List.map_eq_nil_iff.mp (hrest.symm.trans htodo)
    rw [hnil, List.append_nil] at hsplit
    exact ⟨hdata, hgot, hsplit.symm⟩

/-- At the end no message is left in transit. -/
theorem Inv.chan_of_finished (h : t.Inv value s) (hfin : Finished s) (p q : ι) : s.chan (p, q) = [] := by
  rw [h.chan, if_neg]
  rintro ⟨hsent, hgot⟩
  obtain ⟨-, hq, hroot, -⟩ := h.parent_of_sent hsent
  have hq' := (h.of_todo_nil hq (hfin q)).2.1
  rw [if_neg hroot, hgot] at hq'
  exact absurd hq' (List.cons_ne_nil _ _).symm

/-- Every message that was sent is received or in transit. -/
theorem Inv.count_sent (h : t.Inv value s) (p q : ι) :
    (s.sent p).count q = (s.got q).count p + (s.chan (p, q)).length := by
  by_cases hsent : q ∈ s.sent p
  · obtain ⟨hp, hq, hroot, hparent⟩ := h.parent_of_sent hsent
    have hcount : (s.sent p).count q = 1 := by
      apply List.count_eq_one_of_mem _ hsent
      obtain ⟨-, -, -, hnil⟩ | ⟨-, -, rest, hsplit, -⟩ := h.phase p hp
      · rw [hnil]
        exact List.nodup_nil
      · have hnodup := t.nodup_children p hp
        rw [hsplit] at hnodup
        exact hnodup.of_append_left
    obtain hgot | hgot := h.got_eq hq hroot
    · rw [hcount, h.chan, if_pos ⟨hsent, hgot⟩, hgot]
      rfl
    · rw [hcount, h.chan, hgot, hparent]
      simp
  · have hgot : p ∉ s.got q := by
      intro hp
      have hserved := h.served q (List.ne_nil_of_mem hp)
      have hmem : q ∈ t.nodes := by
        by_contra hmem
        simp [(h.outside q hmem).2.2] at hp
      have hroot : q ≠ t.root := by
        rintro rfl
        simp [h.got_root] at hp
      obtain hnil | hparent := h.got_eq hmem hroot
      · simp [hnil] at hp
      · rw [hparent, List.mem_singleton] at hp
        exact hsent (hp ▸ hserved)
    rw [h.chan, if_neg (fun hb => hsent hb.1), List.count_eq_zero_of_not_mem hsent, List.count_eq_zero_of_not_mem hgot]
    rfl

end Tree

end TreeBroadcast
