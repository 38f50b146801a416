import Mathlib

/-! Loops whose rounds write places of an array. The array afterwards replays the log of the writes. -/

namespace WriteLog

variable {ι σ τ α β : Type*}

section Replay

variable [DecidableEq α] {log log' : List (α × β)} {a : α} {v : β}

def replay (log : List (α × β)) (d : α → β) : α → β := log.foldl (fun d w => Function.update d w.1 w.2) d

@[simp] theorem replay_nil (d : α → β) : replay [] d = d := rfl

@[simp] theorem replay_cons (w : α × β) (log : List (α × β)) (d : α → β) :
    replay (w :: log) d = replay log (Function.update d w.1 w.2) := rfl

theorem replay_of_notMem (h : ∀ v, (a, v) ∉ log) (d : α → β) : replay log d a = d a := by
  induction log generalizing d with
  | nil => rfl
  | cons w log ih =>
    have hne : a ≠ w.1 := by
      rintro rfl
      exact h w.2 List.mem_cons_self
    rw [replay_cons, ih fun v hv => h v (List.mem_cons_of_mem _ hv), Function.update_of_ne hne]

/-- All writes to a place agree. -/
theorem replay_of_mem (hmem : (a, v) ∈ log) (hone : ∀ v', (a, v') ∈ log → v' = v) (d : α → β) : replay log d a = v := by
  induction log generalizing d with
  | nil => exact absurd hmem List.not_mem_nil
  | cons w log ih =>
    have hone' : ∀ v', (a, v') ∈ log → v' = v := fun v' hv => hone v' (List.mem_cons_of_mem _ hv)
    rw [replay_cons]
    by_cases hlater : (a, v) ∈ log
    · exact ih hlater hone' _
    · have hw : w = (a, v) := ((List.mem_cons.mp hmem).resolve_right hlater).symm
      have hlast : ∀ v', (a, v') ∉ log := fun v' hv => hlater (hone' v' hv ▸ hv)
      rw [replay_of_notMem hlast, hw, Function.update_self]

theorem foldl_replay (writes : ι → List (α × β)) (l : List ι) (d : α → β) :
    l.foldl (fun d i => replay (writes i) d) d = replay (l.flatMap writes) d := by
  unfold replay
  rw [List.foldl_flatMap]

end Replay

/-! ## The last write -/

section Last

variable {P Q : ι → Prop} [DecidablePred P] [DecidablePred Q] {val : ι → β} {l l₁ l₂ : List ι} {p : ι} {b : β}

/-- The value of the last item with a property, or a default. -/
def lastValue (P : ι → Prop) [DecidablePred P] (val : ι → β) (b : β) (l : List ι) : β :=
  ((l.filter fun i => P i).getLast?.map val).getD b

theorem lastValue_of_none (h : ∀ i ∈ l, ¬ P i) : lastValue P val b l = b := by
  have hnil : (l.filter fun i => P i) = [] := List.filter_eq_nil_iff.mpr fun i hi => by simpa using h i hi
  rw [lastValue, hnil]
  rfl

theorem lastValue_split (hp : P p) (hlast : ∀ i ∈ l₂, ¬ P i) : lastValue P val b (l₁ ++ p :: l₂) = val p := by
  have hnil : (l₂.filter fun i => P i) = [] := List.filter_eq_nil_iff.mpr fun i hi => by simpa using hlast i hi
  have hcons : ((p :: l₂).filter fun i => P i) = [p] := by rw [List.filter_cons, if_pos (decide_eq_true hp), hnil]
  rw [lastValue, List.filter_append, hcons, List.getLast?_append]
  rfl

theorem lastValue_append_of_none (hlast : ∀ i ∈ l₂, ¬ P i) : lastValue P val b (l₁ ++ l₂) = lastValue P val b l₁ := by
  have hnil : (l₂.filter fun i => P i) = [] := List.filter_eq_nil_iff.mpr fun i hi => by simpa using hlast i hi
  rw [lastValue, List.filter_append, hnil, List.append_nil, lastValue]

theorem none_or_last_split (P : ι → Prop) (l : List ι) :
    (∀ i ∈ l, ¬ P i) ∨ ∃ l₁ p l₂, l = l₁ ++ p :: l₂ ∧ P p ∧ ∀ i ∈ l₂, ¬ P i := by
  induction l with
  | nil => exact Or.inl fun i hi => absurd hi List.not_mem_nil
  | cons j l ih =>
    rcases ih with hnone | ⟨l₁, p, l₂, rfl, hp, hlast⟩
    · by_cases hj : P j
      · exact Or.inr ⟨[], j, l, rfl, hj, hnone⟩
      · exact Or.inl (List.forall_mem_cons.mpr ⟨hj, hnone⟩)
    · exact Or.inr ⟨j :: l₁, p, l₂, rfl, hp, hlast⟩

/-- Two readings of a log, one of which takes fewer items for writes: they give one value exactly when the last write of the
longer reading is one of the shorter, or writes what the shorter one has at that point. -/
theorem lastValue_eq_iff (hsub : ∀ i, P i → Q i) : lastValue Q val b l = lastValue P val b l ↔
    ∀ l₁ p l₂, l = l₁ ++ p :: l₂ → Q p → (∀ i ∈ l₂, ¬ Q i) → P p ∨ val p = lastValue P val b l₁ := by
  have hnoneP : ∀ {l : List ι}, (∀ i ∈ l, ¬ Q i) → ∀ i ∈ l, ¬ P i := fun h i hi hP => h i hi (hsub i hP)
  have hbefore : ∀ {l₁ p l₂}, ¬ P p → (∀ i ∈ l₂, ¬ Q i) →
      lastValue P val b (l₁ ++ p :: l₂) = lastValue P val b l₁ := fun hp hlast =>
    lastValue_append_of_none (List.forall_mem_cons.mpr ⟨hp, hnoneP hlast⟩)
  constructor
  · rintro heq l₁ p l₂ rfl hp hlast
    refine or_iff_not_imp_left.mpr fun hnear => ?_
    rwa [lastValue_split hp hlast, hbefore hnear hlast] at heq
  · intro h
    obtain hnone | ⟨l₁, p, l₂, rfl, hp, hlast⟩ := none_or_last_split Q l
    · rw [lastValue_of_none hnone, lastValue_of_none (hnoneP hnone)]
    · rw [lastValue_split hp hlast]
      by_cases hnear : P p
      · rw [lastValue_split hnear (hnoneP hlast)]
      · rw [hbefore hnear hlast]
        exact (h l₁ p l₂ rfl hp hlast).resolve_left hnear

/-- A loop that writes some of the places. -/
theorem foldl_write_eq_lastValue [DecidableEq α] {c : ι → Prop} [DecidablePred c] {place : ι → α} {a : α}
    (hP : ∀ i, P i ↔ c i ∧ place i = a) (l : List ι) (d : α → β) :
    l.foldl (fun d i => if c i then Function.update d (place i) (val i) else d) d a = lastValue P val (d a) l := by
  induction l using List.reverseRecOn with
  | nil => rfl
  | append_singleton l i ih =>
    rw [List.foldl_append, List.foldl_cons, List.foldl_nil]
    by_cases hi : P i
    · rw [lastValue_split hi fun j hj => absurd hj List.not_mem_nil, if_pos ((hP i).mp hi).1, ((hP i).mp hi).2,
        Function.update_self]
    · rw [lastValue_append_of_none (List.forall_mem_singleton.mpr hi), ← ih]
      split_ifs with hc
      · exact Function.update_of_ne (fun h => hi ((hP i).mpr ⟨hc, h.symm⟩)) _ _
      · rfl

end Last

/-! ## Sweeps -/

section Sweep

variable [AddGroup α] {place : ι → α} {step : α} {own : ι → β} {lower : ι → Option β} {l : List ι} {i j : ι} {a : α} {v : β}

/-- Every round writes its own place, and some rounds write the place one step before it. -/
def sweepLog (place : ι → α) (step : α) (own : ι → β) (lower : ι → Option β) (l : List ι) : List (α × β) :=
  l.flatMap fun i => (place i, own i) :: ((lower i).map fun v => (place i - step, v)).toList

theorem mem_sweepLog : (a, v) ∈ sweepLog place step own lower l ↔
    ∃ i ∈ l, (a = place i ∧ v = own i) ∨ (a = place i - step ∧ lower i = some v) := by
  simp only [sweepLog, List.mem_flatMap, List.mem_cons, Option.mem_toList, Option.map_eq_some_iff, Prod.mk.injEq]
  grind

variable [DecidableEq α] (hinj : ∀ i ∈ l, ∀ j ∈ l, place i = place j → i = j)
  (hlow : ∀ i ∈ l, (lower i).isSome → ∀ j ∈ l, place i - step ≠ place j)

include hinj hlow

theorem replay_sweepLog_self (hi : i ∈ l) (d : α → β) : replay (sweepLog place step own lower l) d (place i) = own i := by
  apply replay_of_mem (mem_sweepLog.mpr ⟨i, hi, Or.inl ⟨rfl, rfl⟩⟩)
  intro v hv
  obtain ⟨j, hj, ⟨ha, rfl⟩ | ⟨ha, hlower⟩⟩ := mem_sweepLog.mp hv
  · rw [hinj i hi j hj ha]
  · exact absurd ha.symm (hlow j hj (hlower ▸ rfl) i hi)

theorem replay_sweepLog_lower (hi : i ∈ l) (hv : lower i = some v) (d : α → β) :
    replay (sweepLog place step own lower l) d (place i - step) = v := by
  apply replay_of_mem (mem_sweepLog.mpr ⟨i, hi, Or.inr ⟨rfl, hv⟩⟩)
  intro v' hv'
  obtain ⟨j, hj, ⟨ha, rfl⟩ | ⟨ha, hlower⟩⟩ := mem_sweepLog.mp hv'
  · exact absurd ha (hlow i hi (hv ▸ rfl) j hj)
  · have hij : i = j := hinj i hi j hj (sub_left_injective ha)
    subst hij
    exact Option.some_injective _ (hlower.symm.trans hv)

omit hlow in
/-- The place before a round that does not write it, when it is not the place of another round. -/
theorem replay_sweepLog_free (hi : i ∈ l) (hv : lower i = none) (hfree : ∀ j ∈ l, place i - step ≠ place j) (d : α → β) :
    replay (sweepLog place step own lower l) d (place i - step) = d (place i - step) := by
  apply replay_of_notMem
  intro v hmem
  obtain ⟨j, hj, ⟨ha, -⟩ | ⟨ha, hlower⟩⟩ := mem_sweepLog.mp hmem
  · exact hfree j hj ha
  · have hij : i = j := hinj i hi j hj (sub_left_injective ha)
    subst hij
    rw [hv] at hlower
    exact Option.some_ne_none v hlower.symm

end Sweep

/-! ## Parts of the state -/

/-- A part of the state that makes steps of its own as long as an invariant holds. -/
theorem foldl_hom_of_inv {step : σ → ι → σ} {step' : τ → ι → τ} (f : σ → τ) (Inv : σ → Prop) {l : List ι}
    (hinv : ∀ s, Inv s → ∀ j ∈ l, Inv (step s j)) (hf : ∀ s, Inv s → ∀ j ∈ l, f (step s j) = step' (f s) j) {s : σ}
    (hs : Inv s) : f (l.foldl step s) = l.foldl step' (f s) := by
  induction l generalizing s with
  | nil => rfl
  | cons j l ih =>
    rw [List.foldl_cons, List.foldl_cons, ← hf s hs j List.mem_cons_self]
    exact ih (fun s hs k hk => hinv s hs k (List.mem_cons_of_mem _ hk))
      (fun s hs k hk => hf s hs k (List.mem_cons_of_mem _ hk)) (hinv s hs j List.mem_cons_self)

theorem foldl_hom_of_mem {step : σ → ι → σ} {step' : τ → ι → τ} (f : σ → τ) {l : List ι}
    (hf : ∀ s, ∀ j ∈ l, f (step s j) = step' (f s) j) (s : σ) : f (l.foldl step s) = l.foldl step' (f s) :=
  foldl_hom_of_inv f (fun _ => True) (fun _ _ _ _ => trivial) (fun s _ => hf s) trivial

end WriteLog
