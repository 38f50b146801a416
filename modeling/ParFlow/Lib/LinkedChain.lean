import ParFlow.Lib.FuelRun

/-! Singly linked lists in a heap. A chain remembers the address of every cell together with its value, so that a
statement about the list of a chain is one about its order and its contents. -/

namespace LinkedChain

open FuelRun

abbrev Addr := ℕ

variable {β : Type}

structure ChainCell (β : Type) where
  val : β
  next : Option Addr
  deriving DecidableEq, Repr

abbrev Heap (β : Type) := Addr → Option (ChainCell β)

def load (h : Heap β) : Option Addr → Except Fault (ChainCell β)
  | none => .error .null
  | some a =>
    match h a with
    | none => .error .null
    | some c => .ok c

/-- Let the cell at an address point to `q`. -/
def setNext (h : Heap β) (p q : Option Addr) : Except Fault (Heap β) := do
  let c ← load h p
  .ok (match p with
    | none => h
    | some a => Function.update h a (some { c with next := q }))

/-- From `p` the cells of the list follow one another, and the last one points to `q`. -/
def Segment (h : Heap β) : Option Addr → List (Addr × β) → Option Addr → Prop
  | p, [], q => p = q
  | p, (a, b) :: l, q => p = some a ∧ ∃ next, h a = some ⟨b, next⟩ ∧ Segment h next l q

abbrev Chain (h : Heap β) (p : Option Addr) (l : List (Addr × β)) : Prop := Segment h p l none

def addrs (l : List (Addr × β)) : List Addr := l.map Prod.fst

/-- The address of the first cell. -/
def ptr (l : List (Addr × β)) : Option Addr := l.head?.map Prod.fst

/-- The address of the last cell, or `previous` when there is none. -/
def lastOr (previous : Option Addr) (l : List (Addr × β)) : Option Addr := l.foldl (fun _ x => some x.1) previous

/-- Walk along the list until a cell passes the test; returns the address before it and its own. -/
def walk (h : Heap β) (stop : Addr → β → Bool) :
    ℕ → Option Addr → Option Addr → Except Fault (Option Addr × Option Addr)
  | 0, _, _ => .error .fuel
  | _ + 1, previous, none => .ok (previous, none)
  | fuel + 1, previous, some current => do
    let c ← load h (some current)
    if stop current c.val then .ok (previous, some current)
    else walk h stop fuel (some current) c.next

section

variable {h h' : Heap β} {p q q' r : Option Addr} {a c : Addr} {b d : β} {next : Option Addr} {l l' l₁ l₂ : List (Addr × β)}

@[simp] theorem addrs_nil : addrs ([] : List (Addr × β)) = [] := rfl

@[simp] theorem addrs_cons (x : Addr × β) : addrs (x :: l) = x.1 :: addrs l := rfl

@[simp] theorem addrs_append : addrs (l₁ ++ l₂) = addrs l₁ ++ addrs l₂ := List.map_append

@[simp] theorem lastOr_append_singleton (x : Addr × β) : lastOr p (l ++ [x]) = some x.1 := by
  simp [lastOr]

theorem load_eq {x : ChainCell β} (hx : h a = some x) : load h (some a) = .ok x := by
  simp [load, hx]

theorem setNext_eq (hc : h c = some ⟨d, r⟩) : setNext h (some c) q = .ok (Function.update h c (some ⟨d, q⟩)) := by
  unfold setNext
  rw [load_eq hc]
  rfl

/-! ## Segments -/

theorem segment_append : Segment h p (l₁ ++ l₂) q ↔ ∃ r, Segment h p l₁ r ∧ Segment h r l₂ q := by
  induction l₁ generalizing p with
  | nil => simp [Segment]
  | cons x l₁ ih =>
    simp only [List.cons_append, Segment, ih]
    constructor
    · rintro ⟨hp, next, hx, r, h₁, h₂⟩
      exact ⟨r, ⟨hp, next, hx, h₁⟩, h₂⟩
    · rintro ⟨r, ⟨hp, next, hx, h₁⟩, h₂⟩
      exact ⟨hp, next, hx, r, h₁, h₂⟩

theorem Segment.congr (hs : Segment h p l q) (hh : ∀ a ∈ addrs l, h' a = h a) : Segment h' p l q := by
  induction l generalizing p with
  | nil => exact hs
  | cons x l ih =>
    obtain ⟨hp, next, hx, hs⟩ := hs
    refine ⟨hp, next, ?_, ih hs fun a ha => hh a (List.mem_cons_of_mem _ ha)⟩
    rw [hh x.1 List.mem_cons_self]
    exact hx

theorem Segment.update (hs : Segment h p l q) (ha : a ∉ addrs l) (x : Option (ChainCell β)) :
    Segment (Function.update h a x) p l q := by
  apply hs.congr
  intro a' ha'
  have hne : a' ≠ a := by
    rintro rfl
    exact ha ha'
  exact Function.update_of_ne hne _ _

/-- The last cell is pointed somewhere else. -/
theorem Segment.relast (hs : Segment h p (l ++ [(c, d)]) q) (hc : c ∉ addrs l) (q' : Option Addr) :
    Segment (Function.update h c (some ⟨d, q'⟩)) p (l ++ [(c, d)]) q' := by
  obtain ⟨r, hs, hr, next, -, -⟩ := segment_append.mp hs
  exact segment_append.mpr ⟨r, hs.update hc _, hr, q', Function.update_self _ _ _, rfl⟩

theorem Segment.of_mem (hs : Segment h p l q) (hx : (a, b) ∈ l) : ∃ next, h a = some ⟨b, next⟩ := by
  obtain ⟨l₁, l₂, rfl⟩ := List.append_of_mem hx
  obtain ⟨r, -, -, next, ha, -⟩ := segment_append.mp hs
  exact ⟨next, ha⟩

/-! ## Chains -/

theorem Segment.ptr_eq (hs : Chain h p l) : p = ptr l := by
  cases l with
  | nil => exact hs
  | cons x l => exact hs.1

theorem Segment.unique (hs : Chain h p l) (hs' : Chain h p l') : l = l' := by
  induction l generalizing p l' with
  | nil =>
    cases l' with
    | nil => rfl
    | cons x l' => exact absurd (hs.symm.trans hs'.1) (by simp)
  | cons x l ih =>
    obtain ⟨hp, next, hx, hs⟩ := hs
    cases l' with
    | nil => exact absurd (hs'.symm.trans hp) (by simp)
    | cons x' l' =>
      obtain ⟨hp', next', hx', hs'⟩ := hs'
      have hfst : x.1 = x'.1 := Option.some.inj (hp.symm.trans hp')
      rw [← hfst, hx, Option.some.injEq, ChainCell.mk.injEq] at hx'
      rw [Prod.ext hfst hx'.1, ih hs (hx'.2 ▸ hs')]

/-- What follows a cell is shorter than the chain from it on, so that no cell comes twice. -/
theorem Segment.nodup (hs : Chain h p l) : (addrs l).Nodup := by
  induction l generalizing p with
  | nil => exact List.nodup_nil
  | cons x l ih =>
    obtain ⟨hp, next, hx, hs⟩ := hs
    refine List.nodup_cons.mpr ⟨?_, ih hs⟩
    intro hmem
    obtain ⟨y, hy, hfst⟩ := List.mem_map.mp hmem
    obtain ⟨l₁, l₂, rfl⟩ := List.append_of_mem hy
    obtain ⟨r, -, hr, next', hy', hs₂⟩ := segment_append.mp hs
    have heq : x :: (l₁ ++ y :: l₂) = y :: l₂ := by
      refine Segment.unique (h := h) (p := p) ⟨hp, next, hx, hs⟩ ⟨?_, next', hy', hs₂⟩
      rw [hp, hfst]
    have hlength := congrArg List.length heq
    simp only [List.length_cons, List.length_append] at hlength
    omega

theorem addrs_disjoint (hs : Chain h p (l₁ ++ l₂)) (ha : a ∈ addrs l₁) : a ∉ addrs l₂ := by
  have hnodup := hs.nodup
  rw [addrs_append] at hnodup
  exact fun ha' => (List.nodup_append.mp hnodup).2.2 a ha a ha' rfl

/-! ## Insertion and removal -/

/-- A cell in front of the first one. -/
theorem Segment.insert_front (hs : Chain h p l) (ha : a ∉ addrs l) :
    Chain (Function.update h a (some ⟨b, p⟩)) (some a) ((a, b) :: l) :=
  ⟨rfl, p, Function.update_self _ _ _, hs.update ha _⟩

/-- A cell behind the cell `c`. -/
theorem Segment.insert_after (hs : Chain h p ((l₁ ++ [(c, d)]) ++ l₂)) (ha : a ∉ addrs ((l₁ ++ [(c, d)]) ++ l₂)) :
    Chain (Function.update (Function.update h a (some ⟨b, ptr l₂⟩)) c (some ⟨d, some a⟩)) p
      ((l₁ ++ [(c, d)]) ++ (a, b) :: l₂) := by
  have hnodup := hs.nodup
  obtain ⟨r, h₁, h₂⟩ := segment_append.mp hs
  obtain rfl := Segment.ptr_eq h₂
  simp only [addrs_append, addrs_cons, addrs_nil, List.mem_append, List.mem_singleton, not_or] at ha
  have hc : c ∉ addrs l₁ := by
    rw [addrs_append, addrs_append] at hnodup
    exact fun hmem => (List.nodup_append.mp (List.nodup_append.mp hnodup).1).2.2 c hmem c List.mem_cons_self rfl
  have hc₂ : c ∉ addrs l₂ := addrs_disjoint hs (by simp)
  refine segment_append.mpr ⟨some a, (h₁.update ?_ _).relast hc _, rfl, ptr l₂, ?_, (h₂.update ha.2 _).update hc₂ _⟩
  · simpa using ha.1
  · rw [Function.update_of_ne ha.1.2]
    exact Function.update_self _ _ _

/-- The cell behind the cell `c` is left out and freed. -/
theorem Segment.remove_after (hs : Chain h p ((l₁ ++ [(c, d)]) ++ (a, b) :: l₂)) :
    Chain (Function.update (Function.update h c (some ⟨d, ptr l₂⟩)) a none) p ((l₁ ++ [(c, d)]) ++ l₂) := by
  have hnodup := hs.nodup
  have hfront : a ∉ addrs (l₁ ++ [(c, d)]) := fun hmem => addrs_disjoint hs hmem List.mem_cons_self
  have hc : c ∉ addrs ((a, b) :: l₂) := addrs_disjoint hs (by simp)
  obtain ⟨r, h₁, hr, next, hx, h₂⟩ := segment_append.mp hs
  obtain rfl := Segment.ptr_eq h₂
  rw [addrs_append, addrs_append] at hnodup
  have hc₁ : c ∉ addrs l₁ := fun hmem =>
    (List.nodup_append.mp (List.nodup_append.mp hnodup).1).2.2 c hmem c List.mem_cons_self rfl
  have ha₂ : a ∉ addrs l₂ := (List.nodup_cons.mp (List.nodup_append.mp hnodup).2.1).1
  exact segment_append.mpr ⟨ptr l₂, (h₁.relast hc₁ _).update hfront _,
    (h₂.update (fun hmem => hc (List.mem_cons_of_mem _ hmem)) _).update ha₂ _⟩

/-! ## Walks -/

theorem walk_spec {stop : Addr → β → Bool} (hs : Chain h p (l₁ ++ l₂)) (h₁ : ∀ x ∈ l₁, stop x.1 x.2 = false)
    (h₂ : ∀ x ∈ l₂.head?, stop x.1 x.2 = true) (previous : Option Addr) (n : ℕ) :
    walk h stop (n + (l₁.length + 1)) previous p = .ok (lastOr previous l₁, ptr l₂) := by
  induction l₁ generalizing p previous with
  | nil =>
    cases l₂ with
    | nil =>
      obtain rfl : p = none := hs
      rfl
    | cons x l₂ =>
      obtain ⟨rfl, next, hx, -⟩ := hs
      have htest := h₂ x rfl
      show (do
        let c ← load h (some x.1)
        if stop x.1 c.val then .ok (previous, some x.1) else walk h stop n (some x.1) c.next) = _
      rw [load_eq hx]
      exact if_pos htest
  | cons x l₁ ih =>
    obtain ⟨rfl, next, hx, hs⟩ := hs
    have htest := h₁ x List.mem_cons_self
    show (do
      let c ← load h (some x.1)
      if stop x.1 c.val then .ok (previous, some x.1) else walk h stop (n + (l₁.length + 1)) (some x.1) c.next) = _
    rw [load_eq hx]
    show (if stop x.1 x.2 then _ else _) = _
    rw [if_neg (by rw [htest]; exact Bool.false_ne_true), ih hs fun y hy => h₁ y (List.mem_cons_of_mem _ hy)]
    rfl

/-- The cells before the first one that passes the test, and those from it on. -/
theorem exists_split (stop : Addr → β → Bool) (l : List (Addr × β)) : ∃ l₁ l₂, l = l₁ ++ l₂ ∧
    (∀ x ∈ l₁, stop x.1 x.2 = false) ∧ ∀ x ∈ l₂.head?, stop x.1 x.2 = true := by
  induction l with
  | nil => exact ⟨[], [], rfl, by simp, by simp⟩
  | cons x l ih =>
    by_cases hx : stop x.1 x.2 = true
    · exact ⟨[], x :: l, rfl, by simp, fun y hy => Option.some.inj hy ▸ hx⟩
    · obtain ⟨l₁, l₂, rfl, h₁, h₂⟩ := ih
      exact ⟨x :: l₁, l₂, rfl, List.forall_mem_cons.mpr ⟨by simpa using hx, h₁⟩, h₂⟩

end

end LinkedChain
