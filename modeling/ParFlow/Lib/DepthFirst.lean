import ParFlow.Lib.FuelRun

/-! Depth-first search by recursion, where only the marks that are set on entry keep it from going round in circles.
The state that holds the marks is left open. -/

namespace DepthFirst

open FuelRun Relation

variable {V σ : Type} (next : V → List V) (marked : σ → V → Bool) (mark : V → σ → σ)

def visit : ℕ → V → σ → Except Fault σ
  | 0, _, _ => .error .fuel
  | fuel + 1, v, s => (next v).foldlM (fun s w => if marked s w then .ok s else visit fuel w s) (mark v s)

/-- `w` follows from `v`. -/
def Follows (v w : V) : Prop := w ∈ next v

/-- A search that stays among finitely many nodes. In the states that it meets, the marks do not touch one another. -/
structure IsSearch (Inv : σ → Prop) (nodes : Finset V) : Prop where
  next_mem : ∀ v ∈ nodes, ∀ w ∈ next v, w ∈ nodes
  inv_mark : ∀ v ∈ nodes, ∀ s, Inv s → Inv (mark v s)
  marked_mark : ∀ v ∈ nodes, ∀ w ∈ nodes, ∀ s, Inv s → (marked (mark v s) w = true ↔ w = v ∨ marked s w = true)

/-- What a search from `v` adds: nodes that are reached from `v`, all of whose followers are marked. -/
structure Grows (nodes : Finset V) (v : V) (s s' : σ) : Prop where
  kept : ∀ w ∈ nodes, marked s w = true → marked s' w = true
  closed : ∀ w ∈ nodes, marked s' w = true → marked s w ≠ true → ∀ u ∈ next w, marked s' u = true
  reached : ∀ w ∈ nodes, marked s' w = true → marked s w ≠ true → ReflTransGen (Follows next) v w

/-- The nodes that are not marked yet. -/
def unmarked (nodes : Finset V) (s : σ) : Finset V := nodes.filter fun w => marked s w ≠ true

section

variable {next marked mark} {Inv : σ → Prop} {nodes : Finset V} {v w : V} {s s' s'' : σ}

theorem Grows.refl (s : σ) : Grows next marked nodes v s s :=
  ⟨fun _ _ h => h, fun _ _ h hnot => absurd h hnot, fun _ _ h hnot => absurd h hnot⟩

theorem Grows.trans (hs : IsSearch next marked mark Inv nodes) (h : Grows next marked nodes v s s')
    (h' : Grows next marked nodes v s' s'') : Grows next marked nodes v s s'' := by
  refine ⟨fun w hw hm => h'.kept w hw (h.kept w hw hm), ?_, ?_⟩
  · intro w hw hm hnot u hu
    by_cases hmid : marked s' w = true
    · exact h'.kept u (hs.next_mem w hw u hu) (h.closed w hw hmid hnot u hu)
    · exact h'.closed w hw hm hmid u hu
  · intro w hw hm hnot
    by_cases hmid : marked s' w = true
    · exact h.reached w hw hmid hnot
    · exact h'.reached w hw hm hmid

/-- What is reached from a follower is reached. -/
theorem Grows.of_follower (hw : w ∈ next v) (h : Grows next marked nodes w s s') : Grows next marked nodes v s s' :=
  ⟨h.kept, h.closed, fun u hu hm hnot => (h.reached u hu hm hnot).head hw⟩

/-- The node itself is added when its followers have been. -/
theorem Grows.of_loop (hs : IsSearch next marked mark Inv nodes) (hI : Inv s) (hv : v ∈ nodes)
    (h : Grows next marked nodes v (mark v s) s') (hall : ∀ w ∈ next v, marked s' w = true) :
    Grows next marked nodes v s s' ∧ marked s' v = true := by
  have hmark := fun w hw => hs.marked_mark v hv w hw s hI
  refine ⟨⟨?_, ?_, ?_⟩, h.kept v hv ((hmark v hv).mpr (Or.inl rfl))⟩
  · exact fun w hw hm => h.kept w hw ((hmark w hw).mpr (Or.inr hm))
  · intro w hw hm hnot u hu
    by_cases hwv : w = v
    · exact hall u (hwv ▸ hu)
    · exact h.closed w hw hm (fun hm' => ((hmark w hw).mp hm').elim hwv hnot) u hu
  · intro w hw hm hnot
    by_cases hwv : w = v
    · rw [hwv]
    · exact h.reached w hw hm fun hm' => ((hmark w hw).mp hm').elim hwv hnot

theorem Grows.unmarked_subset (h : Grows next marked nodes v s s') : unmarked marked nodes s' ⊆ unmarked marked nodes s := by
  intro w hw
  obtain ⟨hw, hm⟩ := Finset.mem_filter.mp hw
  exact Finset.mem_filter.mpr ⟨hw, fun hm' => hm (h.kept w hw hm')⟩

/-- Marking a node leaves fewer unmarked ones. -/
theorem unmarked_mark_lt (hs : IsSearch next marked mark Inv nodes) (hI : Inv s) (hv : v ∈ nodes) (hnot : marked s v ≠ true) :
    (unmarked marked nodes (mark v s)).card < (unmarked marked nodes s).card := by
  apply Finset.card_lt_card
  refine Finset.ssubset_iff_subset_ne.mpr ⟨?_, ?_⟩
  · intro w hw
    obtain ⟨hw, hm⟩ := Finset.mem_filter.mp hw
    exact Finset.mem_filter.mpr ⟨hw, fun hm' => hm ((hs.marked_mark v hv w hw s hI).mpr (Or.inr hm'))⟩
  · intro heq
    have hmem : v ∈ unmarked marked nodes (mark v s) := heq ▸ Finset.mem_filter.mpr ⟨hv, hnot⟩
    exact (Finset.mem_filter.mp hmem).2 ((hs.marked_mark v hv v hv s hI).mpr (Or.inl rfl))

/-- A caller may mark the node already. -/
theorem visit_mark (h : mark v (mark v s) = mark v s) (fuel : ℕ) :
    visit next marked mark fuel v (mark v s) = visit next marked mark fuel v s := by
  cases fuel with
  | zero => rfl
  | succ fuel => rw [visit, visit, h]

theorem visit_succ {fuel : ℕ} (h : visit next marked mark fuel v s = .ok s') :
    visit next marked mark (fuel + 1) v s = .ok s' := by
  induction fuel generalizing v s s' with
  | zero => exact absurd h (by simp [visit])
  | succ fuel ih =>
    rw [visit] at h ⊢
    refine foldlM_ok_mono (fun st w r hr => ?_) h
    split_ifs at hr ⊢ with hm
    · exact hr
    · exact ih hr

theorem stable_visit (v : V) (s : σ) : Stable fun fuel => visit next marked mark fuel v s := fun _ _ h => visit_succ h

/-- The search returns from every node that is not marked. -/
theorem visit_returns (hs : IsSearch next marked mark Inv nodes) (hI : Inv s) (hv : v ∈ nodes) (hnot : marked s v ≠ true) :
    ∃ s', Returns (fun fuel => visit next marked mark fuel v s) s' ∧ Inv s' ∧ Grows next marked nodes v s s' ∧
      marked s' v = true := by
  -- on the number of unmarked nodes, of which every call finds one less
  induction hn : (unmarked marked nodes s).card using Nat.strong_induction_on generalizing v s with
  | _ n ih =>
    have hlt := unmarked_mark_lt hs hI hv hnot
    have hround : ∀ w ∈ next v, ∀ st, Inv st ∧ (unmarked marked nodes st).card < n → ∃ st',
        Returns (fun fuel => if marked st w then .ok st else visit next marked mark fuel w st) st' ∧
        (Inv st' ∧ (unmarked marked nodes st').card < n) ∧ Grows next marked nodes v st st' ∧
        (w ∈ nodes → marked st' w = true) := by
      intro w hw st ⟨hIst, hcard⟩
      by_cases hm : marked st w = true
      · refine ⟨st, ?_, ⟨hIst, hcard⟩, Grows.refl st, fun _ => hm⟩
        simp only [hm, if_true]
        exact returns_const st
      · obtain ⟨st', hret, hIst', hgrows, hmarked⟩ := ih _ hcard hIst (hs.next_mem v hv w hw) hm rfl
        refine ⟨st', ?_, ⟨hIst', ?_⟩, hgrows.of_follower hw, fun _ => hmarked⟩
        · simpa only [if_neg hm] using hret
        · exact (Finset.card_le_card hgrows.unmarked_subset).trans_lt hcard
    obtain ⟨s', hret, hgood, hgrows, hall⟩ := returns_foldlM_each
      (fun st => Inv st ∧ (unmarked marked nodes st).card < n) (Grows next marked nodes v)
      (fun w st => w ∈ nodes → marked st w = true) Grows.refl (fun _ _ _ h h' => h.trans hs h')
      (fun w _ _ h hm hw => h.kept w hw (hm hw)) hround (mark v s) ⟨hs.inv_mark v hv s hI, hn ▸ hlt⟩
    obtain ⟨hgrows', hmarked⟩ := hgrows.of_loop hs hI hv fun w hw => hall w hw (hs.next_mem v hv w hw)
    exact ⟨s', returns_of_succ hret fun _ => rfl, hgood.1, hgrows', hmarked⟩

/-- When nothing is marked before, what is marked behind is what is reached. -/
theorem Grows.marked_iff (hs : IsSearch next marked mark Inv nodes) (hnone : ∀ w ∈ nodes, marked s w ≠ true)
    (hv : v ∈ nodes) (h : Grows next marked nodes v s s') (hmarked : marked s' v = true) (hw : w ∈ nodes) :
    marked s' w = true ↔ ReflTransGen (Follows next) v w := by
  constructor
  · exact fun hm => h.reached w hw hm (hnone w hw)
  · intro hreach
    have hboth : w ∈ nodes ∧ marked s' w = true := by
      clear hw
      induction hreach with
      | refl => exact ⟨hv, hmarked⟩
      | tail _ hstep ih =>
        obtain ⟨hu, hm⟩ := ih
        exact ⟨hs.next_mem _ hu _ hstep, h.closed _ hu hm (hnone _ hu) _ hstep⟩
    exact hboth.2

end

end DepthFirst
