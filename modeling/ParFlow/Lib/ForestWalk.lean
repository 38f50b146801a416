import ParFlow.Lib.FuelRun

/-! Walks through a forest, from its roots upwards, that give every node a value from that of the node below it. The
state that holds the values is left open, and a walk enters the nodes whose value is not set yet. -/

namespace ForestWalk

open FuelRun Relation

variable {V K σ : Type}

section

variable (kids : V → List V)

/-- `w` grows on `v`. -/
def Kid (v w : V) : Prop := w ∈ kids v

/-- Every node grows on one node at most, and ranks rise upwards, up to `N`. -/
structure IsForest (Node : V → Prop) (rank : V → ℕ) (N : ℕ) : Prop where
  nodup : ∀ v, (kids v).Nodup
  node : ∀ v w, w ∈ kids v → Node v ∧ Node w
  unique : ∀ u v w, w ∈ kids u → w ∈ kids v → u = v
  rank_lt : ∀ v w, w ∈ kids v → rank v < rank w
  rank_le : ∀ v, Node v → rank v ≤ N

/-- A place for the value of every node. -/
structure Slots (Node : V → Prop) (Good : σ → Prop) (get : σ → V → K) (set : σ → V → K → σ) : Prop where
  good : ∀ s v k, Good s → Good (set s v k)
  get_set : ∀ s v k, get (set s v k) v = k
  get_set_of_ne : ∀ s v w k, Good s → Node v → Node w → w ≠ v → get (set s v k) w = get s w

/-- The walk goes on to the kids that have no value yet, after it has given them one. -/
structure IsWalk [DecidableEq K] (Live : V → Prop) (Good : σ → Prop) (get : σ → V → K) (set : σ → V → K → σ) (unset : K)
    (rise : K → V → K) (run : ℕ → V → σ → Except Fault σ) : Prop where
  step : ∀ n v s, Live v → Good s → run (n + 1) v s =
    (kids v).foldlM (fun s w => if get s w = unset then run n w (set s w (rise (get s v) w)) else .ok s) s
  live : ∀ v w, Live v → w ∈ kids v → Live w

/-- The value of `w` is the one that it gets from the node below. -/
def Risen (get : σ → V → K) (rise : K → V → K) (s : σ) (w : V) : Prop := ∀ v, w ∈ kids v → get s w = rise (get s v) w

end

variable {kids : V → List V} {Node : V → Prop} {rank : V → ℕ} {N : ℕ} {u u' v w : V}

/-! ## Above a node -/

theorem IsForest.rank_le_of_atOrAbove (hf : IsForest kids Node rank N) (h : ReflTransGen (Kid kids) v w) : rank v ≤ rank w := by
  induction h with
  | refl => exact le_rfl
  | tail _ h ih => exact ih.trans (hf.rank_lt _ _ h).le

theorem IsForest.rank_lt_of_above (hf : IsForest kids Node rank N) (h : TransGen (Kid kids) v w) : rank v < rank w := by
  obtain ⟨u, hvu, huw⟩ := TransGen.tail'_iff.mp h
  exact (hf.rank_le_of_atOrAbove hvu).trans_lt (hf.rank_lt _ _ huw)

theorem IsForest.not_above_self (hf : IsForest kids Node rank N) (v : V) : ¬ TransGen (Kid kids) v v :=
  fun h => lt_irrefl _ (hf.rank_lt_of_above h)

/-- The node below a node above `u` is above `u`, or below `u`. -/
theorem IsForest.below_eq_or (hf : IsForest kids Node rank N) (hu : u ∈ kids v) (h : ReflTransGen (Kid kids) u w) {x : V}
    (hx : w ∈ kids x) : x = v ∨ ReflTransGen (Kid kids) u x := by
  rcases ReflTransGen.cases_tail h with rfl | ⟨y, huy, hyw⟩
  · exact Or.inl (hf.unique _ _ _ hx hu)
  · exact Or.inr (hf.unique _ _ _ hyw hx ▸ huy)

theorem IsForest.comparable (hf : IsForest kids Node rank N) (h : ReflTransGen (Kid kids) u w)
    (h' : ReflTransGen (Kid kids) u' w) : ReflTransGen (Kid kids) u u' ∨ ReflTransGen (Kid kids) u' u := by
  have hunique : Relator.RightUnique (Function.swap (Kid kids)) := fun a b c hb hc => hf.unique b c a hb hc
  rw [← reflTransGen_swap] at h h'
  refine (ReflTransGen.total_of_right_unique hunique h h').symm.imp (fun h => ?_) fun h => ?_
  · exact reflTransGen_swap.mp h
  · exact reflTransGen_swap.mp h

/-- The trees on two kids of a node have no node in common. -/
theorem IsForest.disjoint (hf : IsForest kids Node rank N) (hu : u ∈ kids v) (hu' : u' ∈ kids v) (hne : u ≠ u')
    (h : ReflTransGen (Kid kids) u w) (h' : ReflTransGen (Kid kids) u' w) : False := by
  have hnot : ∀ {a b : V}, a ∈ kids v → b ∈ kids v → a ≠ b → ¬ ReflTransGen (Kid kids) a b := by
    intro a b ha hb hab habove
    rcases ReflTransGen.cases_tail habove with rfl | ⟨y, hay, hyb⟩
    · exact hab rfl
    · have hle := hf.rank_le_of_atOrAbove hay
      rw [hf.unique _ _ _ hyb hb] at hle
      exact absurd (hf.rank_lt _ _ ha) (not_lt.mpr hle)
  rcases hf.comparable h h' with h | h
  · exact hnot hu hu' hne h
  · exact hnot hu' hu hne.symm h

/-! ## The walk -/

section

variable [DecidableEq K] {Live : V → Prop} {Good : σ → Prop} {get : σ → V → K} {set : σ → V → K → σ} {unset : K}
  {rise : K → V → K} {run : ℕ → V → σ → Except Fault σ} {s : σ}

variable (rise run) in
/-- The loop over some kids of a node, where the walk returns from each of them. -/
theorem kids_return (hf : IsForest kids Node rank N) (hm : Slots Node Good get set) (hwalk : ∀ u ∈ kids v, ∀ s, Good s →
      (∀ w, TransGen (Kid kids) u w → get s w = unset) → ∃ s', Returns (fun n => run n u s) s' ∧ Good s' ∧
        (∀ w, TransGen (Kid kids) u w → Risen kids get rise s' w) ∧
        ∀ w, Node w → ¬ TransGen (Kid kids) u w → get s' w = get s w)
    (l : List V) (hl : ∀ u ∈ l, u ∈ kids v) (hnodup : l.Nodup) (hs : Good s)
    (hunset : ∀ u ∈ l, ∀ w, ReflTransGen (Kid kids) u w → get s w = unset) :
    ∃ s', Returns (fun n => l.foldlM
        (fun s w => if get s w = unset then run n w (set s w (rise (get s v) w)) else .ok s) s) s' ∧ Good s' ∧
      (∀ u ∈ l, ∀ w, ReflTransGen (Kid kids) u w → Risen kids get rise s' w) ∧
      ∀ w, Node w → (∀ u ∈ l, ¬ ReflTransGen (Kid kids) u w) → get s' w = get s w := by
  induction l generalizing s with
  | nil => exact ⟨s, returns_const s, hs, fun u hu => absurd hu List.not_mem_nil, fun _ _ _ => rfl⟩
  | cons u l ih =>
    obtain ⟨hul, hnodup'⟩ := List.nodup_cons.mp hnodup
    have hu := hl u List.mem_cons_self
    obtain ⟨hv, hunode⟩ := hf.node v u hu
    obtain ⟨s₀, hs₀⟩ : ∃ s₀, s₀ = set s u (rise (get s v) u) := ⟨_, rfl⟩
    have hset : ∀ w, Node w → w ≠ u → get s₀ w = get s w := fun w hw hne =>
      hs₀ ▸ hm.get_set_of_ne s u w _ hs hunode hw hne
    have hnode : ∀ w, ReflTransGen (Kid kids) u w → Node w := by
      intro w h
      rcases ReflTransGen.cases_tail h with rfl | ⟨y, -, hy⟩
      · exact hunode
      · exact (hf.node y w hy).2
    obtain ⟨s₁, hret₁, hs₁, hrisen₁, hkeep₁⟩ := hwalk u hu s₀ (hs₀ ▸ hm.good s u _ hs) fun w hw => by
      rw [hset w (hnode w hw.to_reflTransGen) fun h => hf.not_above_self u (h ▸ hw)]
      exact hunset u List.mem_cons_self w hw.to_reflTransGen
    -- the walk through one kid's tree leaves the trees of the other kids alone
    have hkeep : ∀ w, Node w → ¬ ReflTransGen (Kid kids) u w → get s₁ w = get s w := fun w hw hnot =>
      (hkeep₁ w hw fun h => hnot h.to_reflTransGen).trans (hset w hw fun h => hnot (h ▸ ReflTransGen.refl))
    have hvnot : ∀ x ∈ kids v, ¬ ReflTransGen (Kid kids) x v := fun x hx h =>
      absurd (hf.rank_lt v x hx) (not_lt.mpr (hf.rank_le_of_atOrAbove h))
    obtain ⟨s₂, hret₂, hs₂, hrisen₂, hkeep₂⟩ := ih (fun x hx => hl x (List.mem_cons_of_mem _ hx)) hnodup' hs₁
      fun x hx w hw => by
        have hxv := hl x (List.mem_cons_of_mem _ hx)
        have hne : u ≠ x := fun h => hul (h ▸ hx)
        have hwnode : Node w := by
          rcases ReflTransGen.cases_tail hw with rfl | ⟨y, -, hy⟩
          · exact (hf.node v _ hxv).2
          · exact (hf.node y w hy).2
        rw [hkeep w hwnode fun h => hf.disjoint hu hxv hne h hw]
        exact hunset x (List.mem_cons_of_mem _ hx) w hw
    have hlast : ∀ w, ReflTransGen (Kid kids) u w → get s₂ w = get s₁ w := fun w hw =>
      hkeep₂ w (hnode w hw) fun x hx h => hf.disjoint hu (hl x (List.mem_cons_of_mem _ hx)) (fun h => hul (h ▸ hx)) hw h
    have hv₂ : get s₂ v = get s₁ v := hkeep₂ v hv fun x hx => hvnot x (hl x (List.mem_cons_of_mem _ hx))
    refine ⟨s₂, ?_, hs₂, ?_, fun w hw hnot => ?_⟩
    · simp only [List.foldlM_cons, if_pos (hunset u List.mem_cons_self u ReflTransGen.refl), ← hs₀]
      exact (returns_bind_iff hret₁).mpr hret₂
    · refine List.forall_mem_cons.mpr ⟨fun w hw x hx => ?_, hrisen₂⟩
      rw [hlast w hw]
      rcases hf.below_eq_or hu hw hx with rfl | hux
      · obtain rfl : w = u := by
          rcases ReflTransGen.cases_tail hw with h | ⟨y, huy, hyw⟩
          · exact h
          · rw [hf.unique _ _ _ hyw hx] at huy
            exact absurd huy (hvnot u hu)
        rw [hv₂, hkeep₁ w hunode (hf.not_above_self w), hkeep x hv (hvnot w hu), hs₀, hm.get_set]
      · rw [hlast x hux]
        exact hrisen₁ w (TransGen.tail' hux hx) x hx
    · rw [hkeep₂ w hw fun x hx => hnot x (List.mem_cons_of_mem _ hx), hkeep w hw (hnot u List.mem_cons_self)]

/-- The walk returns, and gives every node above `v` its value. -/
theorem walk_returns (hf : IsForest kids Node rank N) (hm : Slots Node Good get set)
    (hw : IsWalk kids Live Good get set unset rise run) (hlive : Live v) (hv : Node v) (hs : Good s)
    (hunset : ∀ w, TransGen (Kid kids) v w → get s w = unset) :
    ∃ s', Returns (fun n => run n v s) s' ∧ Good s' ∧ (∀ w, TransGen (Kid kids) v w → Risen kids get rise s' w) ∧
      ∀ w, Node w → ¬ TransGen (Kid kids) v w → get s' w = get s w := by
  -- on the ranks that are left above the node
  induction hn : N - rank v using Nat.strong_induction_on generalizing v s with
  | _ n ih =>
    have hkid : ∀ u ∈ kids v, ∀ w, ReflTransGen (Kid kids) u w → TransGen (Kid kids) v w := fun u hu w hw =>
      TransGen.head' hu hw
    obtain ⟨s', hret, hs', hrisen, hkeep⟩ := kids_return rise run hf hm (fun u hu s hs hunset => by
        have hlt := hf.rank_lt v u hu
        have hle := hf.rank_le u (hf.node v u hu).2
        exact ih (N - rank u) (by omega) (hw.live v u hlive hu) (hf.node v u hu).2 hs hunset rfl)
      (kids v) (fun u hu => hu) (hf.nodup v) hs fun u hu w h => hunset w (hkid u hu w h)
    refine ⟨s', returns_of_succ hret fun n => hw.step n v s hlive hs, hs', fun w h => ?_, fun w hwnode hnot => ?_⟩
    · obtain ⟨u, hu, huw⟩ := TransGen.head'_iff.mp h
      exact hrisen u hu w huw
    · exact hkeep w hwnode fun u hu h => hnot (hkid u hu w h)

end

/-! ## All trees -/

section

variable {Good : σ → Prop} {get : σ → V → K} {unset : K} {rise : K → V → K} {s : σ} {root : V → Prop} {plant : V → K}
  {body : ℕ → σ → V → Except Fault σ}

theorem IsForest.exists_root (hf : IsForest kids Node rank N) (hfound : ∀ w, Node w → ¬ root w → ∃ v, w ∈ kids v)
    (hw : Node w) : ∃ r, root r ∧ Node r ∧ ReflTransGen (Kid kids) r w := by
  induction hn : rank w using Nat.strong_induction_on generalizing w with
  | _ n ih =>
    by_cases hroot : root w
    · exact ⟨w, hroot, hw, ReflTransGen.refl⟩
    · obtain ⟨v, hv⟩ := hfound w hw hroot
      obtain ⟨r, hr, hrnode, habove⟩ := ih (rank v) (hn ▸ hf.rank_lt v w hv) (hf.node v w hv).1 rfl
      exact ⟨r, hr, hrnode, habove.tail hv⟩

/-- No node lies above two roots. -/
theorem IsForest.root_unique (hf : IsForest kids Node rank N) (hroot : ∀ v, root v → ∀ u, v ∉ kids u) (hu : root u)
    (hu' : root u') (h : ReflTransGen (Kid kids) u w) (h' : ReflTransGen (Kid kids) u' w) : u = u' := by
  rcases hf.comparable h h' with h | h
  · rcases ReflTransGen.cases_tail h with heq | ⟨y, -, hy⟩
    · exact heq.symm
    · exact absurd hy (hroot u' hu' y)
  · rcases ReflTransGen.cases_tail h with heq | ⟨y, -, hy⟩
    · exact heq
    · exact absurd hy (hroot u hu y)

variable (Good get rise root plant body) in
/-- A loop that plants every root that it meets and walks through its tree. -/
theorem sweep_returns (hf : IsForest kids Node rank N) (hroot : ∀ v, root v → ∀ u, v ∉ kids u)
    (hbody : ∀ v s, root v → Node v → Good s → (∀ w, TransGen (Kid kids) v w → get s w = unset) →
      ∃ s', Returns (fun n => body n s v) s' ∧ Good s' ∧ get s' v = plant v ∧
        (∀ w, TransGen (Kid kids) v w → Risen kids get rise s' w) ∧
        ∀ w, Node w → ¬ ReflTransGen (Kid kids) v w → get s' w = get s w)
    (hother : ∀ v s, ¬ root v → Node v → Good s → Returns (fun n => body n s v) s)
    (l : List V) (hl : ∀ v ∈ l, Node v) (hnodup : l.Nodup) (hs : Good s)
    (hunset : ∀ v ∈ l, root v → ∀ w, TransGen (Kid kids) v w → get s w = unset) :
    ∃ s', Returns (fun n => l.foldlM (body n) s) s' ∧
      (∀ v ∈ l, root v → get s' v = plant v ∧ ∀ w, TransGen (Kid kids) v w → Risen kids get rise s' w) ∧
      ∀ w, Node w → (∀ v ∈ l, root v → ¬ ReflTransGen (Kid kids) v w) → get s' w = get s w := by
  induction l generalizing s with
  | nil => exact ⟨s, returns_const s, fun v hv => absurd hv List.not_mem_nil, fun _ _ _ => rfl⟩
  | cons v l ih =>
    obtain ⟨hvl, hnodup'⟩ := List.nodup_cons.mp hnodup
    have hl' := fun x hx => hl x (List.mem_cons_of_mem v hx)
    by_cases hv : root v
    · have hvnode := hl v List.mem_cons_self
      obtain ⟨s₁, hret₁, hs₁, hplant₁, hrisen₁, hkeep₁⟩ := hbody v s hv hvnode hs (hunset v List.mem_cons_self hv)
      have hapart : ∀ x ∈ l, root x → ∀ w, ReflTransGen (Kid kids) x w → ¬ ReflTransGen (Kid kids) v w := by
        intro x hx hxroot w h h'
        exact hvl (hf.root_unique hroot hv hxroot h' h ▸ hx)
      obtain ⟨s₂, hret₂, hdone₂, hkeep₂⟩ := ih hl' hnodup' hs₁ fun x hx hxroot w hw => by
        obtain ⟨y, -, hyw⟩ := TransGen.tail'_iff.mp hw
        rw [hkeep₁ w (hf.node y w hyw).2 (hapart x hx hxroot w hw.to_reflTransGen)]
        exact hunset x (List.mem_cons_of_mem _ hx) hxroot w hw
      have hlast : ∀ w, Node w → ReflTransGen (Kid kids) v w → get s₂ w = get s₁ w := fun w hw h =>
        hkeep₂ w hw fun x hx hxroot h' => hapart x hx hxroot w h' h
      refine ⟨s₂, ?_, List.forall_mem_cons.mpr ⟨fun _ => ⟨?_, fun w hw x hx => ?_⟩, hdone₂⟩, fun w hw hnot => ?_⟩
      · simp only [List.foldlM_cons]
        exact (returns_bind_iff hret₁).mpr hret₂
      · rw [hlast v hvnode ReflTransGen.refl, hplant₁]
      · have hxnode := hf.node x w hx
        have hvx : ReflTransGen (Kid kids) v x := by
          obtain ⟨y, hvy, hyw⟩ := TransGen.tail'_iff.mp hw
          exact hf.unique _ _ _ hyw hx ▸ hvy
        rw [hlast w hxnode.2 hw.to_reflTransGen, hlast x hxnode.1 hvx]
        exact hrisen₁ w hw x hx
      · rw [hkeep₂ w hw fun x hx => hnot x (List.mem_cons_of_mem _ hx), hkeep₁ w hw (hnot v List.mem_cons_self hv)]
    · obtain ⟨s₂, hret₂, hdone₂, hkeep₂⟩ := ih hl' hnodup' hs fun x hx => hunset x (List.mem_cons_of_mem _ hx)
      refine ⟨s₂, ?_, List.forall_mem_cons.mpr ⟨fun h => absurd h hv, hdone₂⟩, fun w hw hnot => ?_⟩
      · simp only [List.foldlM_cons]
        exact (returns_bind_iff (hother v s hv (hl v List.mem_cons_self) hs)).mpr hret₂
      · exact hkeep₂ w hw fun x hx => hnot x (List.mem_cons_of_mem _ hx)

end

end ForestWalk
