import ParFlow.Lib.ExceptLoop
import ParFlow.Geom.QuickSortDefs

/-! The sort returns, stays within its range, and sorts the array and the permutation array alike. -/

namespace ParFlow.Geom

open Equiv (Perm swap)
open IntervalPerm ExceptLoop

/-! ## Steps -/

section

variable {E : Type} {s s' s'' : SortArrays E} {σ τ : Perm ℤ} {first last lo hi i j k : ℤ}

/-- Both arrays with their entries moved by one permutation. -/
def SortArrays.reorder (s : SortArrays E) (σ : Perm ℤ) : SortArrays E := ⟨s.array ∘ σ, s.permute.map (· ∘ σ)⟩

/-- Both arrays with an entry set. -/
def SortArrays.put (s : SortArrays E) (k : ℤ) (x : E) (t : ℤ) : SortArrays E :=
  ⟨Function.update s.array k x, s.permute.map fun p => Function.update p k t⟩

@[simp] theorem array_reorder (s : SortArrays E) (σ : Perm ℤ) : (s.reorder σ).array = s.array ∘ σ := rfl

@[simp] theorem permute_reorder (s : SortArrays E) (σ : Perm ℤ) : (s.reorder σ).permute = s.permute.map (· ∘ σ) := rfl

theorem reorder_one (s : SortArrays E) : s.reorder 1 = s := by
  obtain ⟨array, _ | permute⟩ := s <;> rfl

theorem reorder_mul (s : SortArrays E) (σ τ : Perm ℤ) : (s.reorder σ).reorder τ = s.reorder (σ * τ) := by
  obtain ⟨array, _ | permute⟩ := s <;> rfl

/-- The entries from `first` to `last` change places, in both arrays alike. -/
def Reorders (first last : ℤ) (s s' : SortArrays E) : Prop := ∃ σ, Within first last σ ∧ s' = s.reorder σ

theorem Reorders.refl (first last : ℤ) (s : SortArrays E) : Reorders first last s s :=
  ⟨1, within_one _ _, (reorder_one s).symm⟩

theorem Reorders.trans (h : Reorders first last s s') (h' : Reorders first last s' s'') : Reorders first last s s'' := by
  obtain ⟨σ, hσ, rfl⟩ := h
  obtain ⟨τ, hτ, rfl⟩ := h'
  exact ⟨σ * τ, hσ.mul hτ, reorder_mul s σ τ⟩

theorem Reorders.mono (h : Reorders i j s s') (hlo : first ≤ i) (hhi : j ≤ last) : Reorders first last s s' := by
  obtain ⟨σ, hσ, rfl⟩ := h
  exact ⟨σ, hσ.mono hlo hhi, rfl⟩

theorem reorders_swap (s : SortArrays E) (hi : first ≤ i ∧ i ≤ last) (hj : first ≤ j ∧ j ≤ last) :
    Reorders first last s (s.reorder (swap i j)) := ⟨_, within_swap hi hj, rfl⟩

theorem Reorders.fixed (h : Reorders first last s s') (hk : k < first ∨ last < k) : s'.array k = s.array k := by
  obtain ⟨σ, hσ, rfl⟩ := h
  exact congrArg s.array (hσ.fixed hk)

theorem Reorders.forall {P : E → Prop} (h : Reorders first last s s')
    (hP : ∀ k, first ≤ k → k ≤ last → P (s.array k)) : ∀ k, first ≤ k → k ≤ last → P (s'.array k) := by
  obtain ⟨σ, hσ, rfl⟩ := h
  exact forall_comp hσ hP

theorem getAt_eq {α : Type} (a : ℤ → α) (hi' : lo ≤ i ∧ i ≤ hi) : getAt lo hi a i = .ok (a i) := if_pos hi'

theorem setAt_eq {α : Type} (a : ℤ → α) (x : α) (hi' : lo ≤ i ∧ i ≤ hi) :
    setAt lo hi a i x = .ok (Function.update a i x) := if_pos hi'

theorem mapM_ok {α β ε : Type} {f : α → Except ε β} {g : α → β} (h : ∀ a, f a = .ok (g a)) (o : Option α) :
    o.mapM f = .ok (o.map g) := by
  cases o with
  | none => rfl
  | some a =>
    rw [Option.mapM_some, h]
    rfl

theorem swapAt_eq {α : Type} (a : ℤ → α) (hi' : lo ≤ i ∧ i ≤ hi) (hj : lo ≤ j ∧ j ≤ hi) :
    swapAt lo hi a i j = .ok (a ∘ swap i j) := by
  rw [swapAt, bind_ok (getAt_eq a hi'), bind_ok (getAt_eq a hj), bind_ok (setAt_eq a _ hi'), setAt_eq _ _ hj, comp_swap]

theorem swapBoth_eq (s : SortArrays E) (hi' : lo ≤ i ∧ i ≤ hi) (hj : lo ≤ j ∧ j ≤ hi) :
    swapBoth lo hi s i j = .ok (s.reorder (swap i j)) := by
  rw [swapBoth, bind_ok (swapAt_eq s.array hi' hj), bind_ok (mapM_ok (fun p => swapAt_eq p hi' hj) s.permute)]
  rfl

variable (greaterThan : E → E → Bool)

theorem swapIfGreater_returns (s : SortArrays E) (hlo : lo ≤ first) (hhi : last ≤ hi) (hi' : first ≤ i ∧ i ≤ last)
    (hj : first ≤ j ∧ j ≤ last) : ∃ s', swapIfGreater lo hi greaterThan s i j = .ok s' ∧ Reorders first last s s' := by
  have hi'' : lo ≤ i ∧ i ≤ hi := by omega
  have hj' : lo ≤ j ∧ j ≤ hi := by omega
  rw [swapIfGreater, bind_ok (getAt_eq s.array hi''), bind_ok (getAt_eq s.array hj')]
  split_ifs
  · exact ⟨_, swapBoth_eq s hi'' hj', reorders_swap s hi' hj⟩
  · exact ⟨s, rfl, Reorders.refl _ _ s⟩

theorem chooseMedian_returns (s : SortArrays E) (hlo : lo ≤ first) (hhi : last ≤ hi) (hlt : first < last) :
    ∃ s', chooseMedian lo hi greaterThan first last s = .ok s' ∧ Reorders first last s s' := by
  have hfirst : first ≤ first ∧ first ≤ last := by omega
  have hnext : first ≤ first + 1 ∧ first + 1 ≤ last := by omega
  have hlast : first ≤ last ∧ last ≤ last := by omega
  have hmiddle : first ≤ (first + last).tdiv 2 ∧ (first + last).tdiv 2 ≤ last := by
    rw [Int.tdiv_eq_ediv, Int.sign_eq_one_of_pos two_pos]
    split_ifs <;> omega
  obtain ⟨s₁, h₁, hR₁⟩ := swapIfGreater_returns greaterThan
    (s.reorder (swap ((first + last).tdiv 2) (first + 1))) hlo hhi hnext hlast
  obtain ⟨s₂, h₂, hR₂⟩ := swapIfGreater_returns greaterThan s₁ hlo hhi hfirst hlast
  obtain ⟨s₃, h₃, hR₃⟩ := swapIfGreater_returns greaterThan s₂ hlo hhi hnext hfirst
  refine ⟨s₃, ?_, (((reorders_swap s hmiddle hnext).trans hR₁).trans hR₂).trans hR₃⟩
  rw [chooseMedian, bind_ok (swapBoth_eq s (by omega) (by omega)), bind_ok h₁, bind_ok h₂, h₃]

end

/-! ## Partition -/

/-- `lessThan` and `greaterThan` compare in the order `le`. -/
structure CompareLaws {E : Type} (le : E → E → Prop) (lessThan greaterThan : E → E → Bool) : Prop where
  less : ∀ a b, lessThan a b = true ↔ ¬ le b a
  greater : ∀ a b, greaterThan a b = true ↔ ¬ le a b

section

variable {E : Type} {le : E → E → Prop} {lessThan greaterThan : E → E → Bool} {s : SortArrays E} {a : ℤ → E}
  {first last lo hi i j : ℤ}

theorem findUp_returns [Std.Total le] (hlaws : CompareLaws le lessThan greaterThan) (hlo : lo ≤ first) (hhi : last ≤ hi)
    (n : ℕ) (i : ℤ) (hi' : first ≤ i) (hn : last - i < n) :
    ∃ i', (∀ fuel, n < fuel → findUp lo hi lessThan a first last fuel i = .ok i') ∧ i ≤ i' ∧
      (∀ k, i ≤ k → k < i' → le (a k) (a first)) ∧ (i' ≤ last → le (a first) (a i')) := by
  induction n generalizing i with
  | zero =>
    refine ⟨i, fun fuel hf => ?_, le_rfl, fun k h1 h2 => absurd h1 (not_le.mpr h2), fun h => by omega⟩
    obtain ⟨f, rfl⟩ : ∃ f, fuel = f + 1 := ⟨fuel - 1, by omega⟩
    exact if_pos (by omega)
  | succ n ih =>
    have hunfold : ∀ f, findUp lo hi lessThan a first last (f + 1) i = if last < i then .ok i else
        if lessThan (a i) (a first) then findUp lo hi lessThan a first last f (i + 1) else .ok i := by
      intro f
      rw [findUp]
      split_ifs with hlast hless
      · rfl
      · rw [bind_ok (getAt_eq a (by omega)), bind_ok (getAt_eq a (by omega)), if_pos hless]
      · rw [bind_ok (getAt_eq a (by omega)), bind_ok (getAt_eq a (by omega)), if_neg hless]
    by_cases hstop : last < i ∨ ¬ lessThan (a i) (a first)
    · refine ⟨i, fun fuel hf => ?_, le_rfl, fun k h1 h2 => absurd h1 (not_le.mpr h2), fun h => ?_⟩
      · obtain ⟨f, rfl⟩ : ∃ f, fuel = f + 1 := ⟨fuel - 1, by omega⟩
        rw [hunfold]
        rcases hstop with h | h
        · exact if_pos h
        · rw [if_neg h, ite_self]
      · rcases hstop with h' | h'
        · exact absurd h (not_le.mpr h')
        · exact not_not.mp fun hle => h' ((hlaws.less _ _).mpr hle)
    · rw [not_or, not_lt, not_not] at hstop
      obtain ⟨i', hrun, hle, hlow, hend⟩ := ih (i + 1) (by omega) (by omega)
      refine ⟨i', fun fuel hf => ?_, by omega, fun k h1 h2 => ?_, hend⟩
      · obtain ⟨f, rfl⟩ : ∃ f, fuel = f + 1 := ⟨fuel - 1, by omega⟩
        rw [hunfold, if_neg (not_lt.mpr hstop.1), if_pos hstop.2]
        exact hrun f (by omega)
      · rcases h1.eq_or_lt with rfl | h
        · exact (total_of le _ _).resolve_right ((hlaws.less _ _).mp hstop.2)
        · exact hlow k (by omega) h2

theorem findDown_returns [Std.Total le] (hlaws : CompareLaws le lessThan greaterThan) (hlo : lo ≤ first) (n : ℕ) (j : ℤ)
    (hj : first ≤ j) (hhi : j ≤ hi) (hn : j - first < n) :
    ∃ j', (∀ fuel, n < fuel → findDown lo hi greaterThan a first fuel j = .ok j') ∧ first ≤ j' ∧ j' ≤ j ∧
      (∀ k, j' < k → k ≤ j → le (a first) (a k)) ∧ le (a j') (a first) := by
  induction n generalizing j with
  | zero => omega
  | succ n ih =>
    have hunfold : ∀ f, findDown lo hi greaterThan a first (f + 1) j =
        if greaterThan (a j) (a first) then findDown lo hi greaterThan a first f (j - 1) else .ok j := by
      intro f
      rw [findDown, bind_ok (getAt_eq a (by omega)), bind_ok (getAt_eq a (by omega))]
    by_cases hgreater : greaterThan (a j) (a first) = true
    · -- The pivot is not greater than itself, so that the scan has not come to it yet.
      have hne : j ≠ first := by
        rintro rfl
        exact (hlaws.greater _ _).mp hgreater (refl _)
      obtain ⟨j', hrun, hfirst, hle, hhigh, hend⟩ := ih (j - 1) (by omega) (by omega) (by omega)
      refine ⟨j', fun fuel hf => ?_, hfirst, by omega, fun k h1 h2 => ?_, hend⟩
      · obtain ⟨f, rfl⟩ : ∃ f, fuel = f + 1 := ⟨fuel - 1, by omega⟩
        rw [hunfold, if_pos hgreater]
        exact hrun f (by omega)
      · rcases h2.eq_or_lt with rfl | h
        · exact (total_of le _ _).resolve_right ((hlaws.greater _ _).mp hgreater)
        · exact hhigh k h1 (by omega)
    · refine ⟨j, fun fuel hf => ?_, hj, le_rfl, fun k h1 h2 => absurd h1 (not_lt.mpr h2),
        not_not.mp fun hle => hgreater ((hlaws.greater _ _).mpr hle)⟩
      obtain ⟨f, rfl⟩ : ∃ f, fuel = f + 1 := ⟨fuel - 1, by omega⟩
      rw [hunfold, if_neg hgreater]

/-- What lies below `i` is at most the pivot, and what lies above `j` at least. -/
structure Partitioned (le : E → E → Prop) (first last i j : ℤ) (a : ℤ → E) : Prop where
  low : ∀ k, first < k → k < i → le (a k) (a first)
  high : ∀ k, j < k → k ≤ last → le (a first) (a k)

/-- The entries found by the two scans change places. -/
theorem Partitioned.swapped (h : Partitioned le first last i j a) (hfirst : first < i) (hij : i < j)
    (hlow : le (a j) (a first)) (hhigh : le (a first) (a i)) :
    Partitioned le first last (i + 1) (j - 1) (a ∘ swap i j) := by
  have hpivot : (a ∘ swap i j) first = a first := congrArg a (Equiv.swap_apply_of_ne_of_ne (by omega) (by omega))
  constructor
  · intro k h1 h2
    rw [hpivot, Function.comp_apply]
    rcases eq_or_ne k i with rfl | hne
    · rw [Equiv.swap_apply_left]
      exact hlow
    · rw [Equiv.swap_apply_of_ne_of_ne hne (by omega)]
      exact h.low k h1 (by omega)
  · intro k h1 h2
    rw [hpivot, Function.comp_apply]
    rcases eq_or_ne k j with rfl | hne
    · rw [Equiv.swap_apply_right]
      exact hhigh
    · rw [Equiv.swap_apply_of_ne_of_ne (by omega) hne]
      exact h.high k (by omega) h2

/-- With the scans past each other, the pivot goes to `j`. -/
theorem partitionLoop_returns [Std.Total le] (hlaws : CompareLaws le lessThan greaterThan) (hlo : lo ≤ first)
    (hhi : last ≤ hi) (n : ℕ) (s : SortArrays E) (i j : ℤ) (hi' : first < i) (hj : first ≤ j) (hjlast : j ≤ last)
    (hin : last - i < n) (hjn : j - first < n) (hpart : Partitioned le first last i j s.array) :
    ∃ s' j', (∀ fuel, n + 1 < fuel →
        partitionLoop lo hi lessThan greaterThan first last fuel s i j = .ok (s', j')) ∧
      Reorders first last s s' ∧ first ≤ j' ∧ j' ≤ last ∧
      (∀ k, first < k → k ≤ j' → le (s'.array k) (s'.array first)) ∧
      ∀ k, j' < k → k ≤ last → le (s'.array first) (s'.array k) := by
  induction n generalizing s i j with
  | zero => omega
  | succ n ih =>
    obtain ⟨i', hup, hii', hlow, hupEnd⟩ := findUp_returns (a := s.array) hlaws hlo hhi (n + 1) i hi'.le hin
    obtain ⟨j', hdown, hfirst, hjj', hhigh, hdownEnd⟩ :=
      findDown_returns (a := s.array) hlaws hlo (n + 1) j hj (hjlast.trans hhi) hjn
    have hpart' : Partitioned le first last i' j' s.array := by
      constructor
      · intro k h1 h2
        rcases lt_or_ge k i with h | h
        · exact hpart.low k h1 h
        · exact hlow k h h2
      · intro k h1 h2
        rcases le_or_gt k j with h | h
        · exact hhigh k h1 h
        · exact hpart.high k h h2
    by_cases hlt : i' < j'
    · obtain ⟨s', j'', hrun, hR, hrest⟩ := ih (s.reorder (swap i' j')) (i' + 1) (j' - 1) (by omega) (by omega) (by omega)
        (by omega) (by omega) (hpart'.swapped (by omega) hlt hdownEnd (hupEnd (by omega)))
      refine ⟨s', j'', fun fuel hf => ?_, (reorders_swap s (by omega) (by omega)).trans hR, hrest⟩
      obtain ⟨f, rfl⟩ : ∃ f, fuel = f + 1 := ⟨fuel - 1, by omega⟩
      rw [partitionLoop, bind_ok (hup f (by omega)), bind_ok (hdown f (by omega)), if_pos hlt,
        bind_ok (swapBoth_eq s (by omega) (by omega))]
      exact hrun f (by omega)
    · refine ⟨s, j', fun fuel hf => ?_, Reorders.refl _ _ s, hfirst, by omega, fun k h1 h2 => ?_, hpart'.high⟩
      · obtain ⟨f, rfl⟩ : ∃ f, fuel = f + 1 := ⟨fuel - 1, by omega⟩
        rw [partitionLoop, bind_ok (hup f (by omega)), bind_ok (hdown f (by omega)), if_neg hlt]
      · rcases h2.eq_or_lt with rfl | h
        · exact hdownEnd
        · exact hpart'.low k h1 (by omega)

end

/-! ## Insertion -/

section

variable {E : Type} {le : E → E → Prop} {lessThan greaterThan : E → E → Bool} {s : SortArrays E} {a : ℤ → E}
  {first last lo hi i j g : ℤ}

/-- Sorted but for the entry at `g`, which is at most what follows it. -/
structure SortedBut (le : E → E → Prop) (first j g : ℤ) (a : ℤ → E) : Prop where
  rest : ∀ k l, first ≤ k → k ≤ l → l ≤ j → k ≠ g → l ≠ g → le (a k) (a l)
  above : ∀ k, g < k → k ≤ j → le (a g) (a k)

theorem SortedBut.moved [Std.Total le] (h : SortedBut le first j (i + 1) a) (hij : i + 1 ≤ j) (hfirst : first ≤ i)
    (hlt : ¬ le (a i) (a (i + 1))) : SortedBut le first j i (a ∘ swap i (i + 1)) := by
  have hplace : ∀ k, k ≠ i → (swap i (i + 1) k = k ∧ k ≠ i + 1) ∨ (k = i + 1 ∧ swap i (i + 1) k = i) := by
    intro k hk
    rcases eq_or_ne k (i + 1) with rfl | hne
    · exact Or.inr ⟨rfl, Equiv.swap_apply_right _ _⟩
    · exact Or.inl ⟨Equiv.swap_apply_of_ne_of_ne hk hne, hne⟩
  constructor
  · intro k l h1 h2 h3 hk hl
    -- off the gap the swap keeps the order of places
    have hkl : first ≤ swap i (i + 1) k ∧ swap i (i + 1) k ≤ swap i (i + 1) l ∧ swap i (i + 1) l ≤ j ∧
        swap i (i + 1) k ≠ i + 1 ∧ swap i (i + 1) l ≠ i + 1 := by
      have := hplace k hk
      have := hplace l hl
      omega
    exact h.rest _ _ hkl.1 hkl.2.1 hkl.2.2.1 hkl.2.2.2.1 hkl.2.2.2.2
  · intro k h1 h2
    rw [Function.comp_apply, Function.comp_apply, Equiv.swap_apply_left]
    rcases hplace k h1.ne' with ⟨hk, hne⟩ | ⟨-, hk⟩
    · rw [hk]
      exact h.above k (by omega) h2
    · rw [hk]
      exact (total_of le _ _).resolve_left hlt

theorem SortedBut.sorted [Std.Total le] [IsTrans E le] (h : SortedBut le first j g a) (hfirst : first ≤ g) (hgj : g ≤ j)
    (hbelow : first < g → le (a (g - 1)) (a g)) : SortedOn le first j a := by
  refine SortedOn.join (j := g) (fun k l h1 h2 h3 => ?_) (fun k l h1 h2 h3 => ?_) (fun k h1 h2 => ?_)
    fun k h1 h2 => h.above k (by omega) h2
  · exact h.rest k l h1 h2 (by omega) (by omega) (by omega)
  · exact h.rest k l (by omega) h2 h3 (by omega) (by omega)
  · exact trans_of le (h.rest k (g - 1) h1 h2 (by omega) (by omega) (by omega)) (hbelow (by omega))

theorem put_self (s : SortArrays E) (k : ℤ) : s.put k (s.array k) ((s.permute.map (· k)).getD 0) = s := by
  obtain ⟨array, _ | permute⟩ := s
  · exact congrArg (SortArrays.mk · _) (Function.update_eq_self k array)
  · exact congrArg₂ SortArrays.mk (Function.update_eq_self k array) (congrArg some (Function.update_eq_self k permute))

/-- Both arrays after a round of the inner loop. -/
def SortArrays.shifted (s : SortArrays E) (i : ℤ) : SortArrays E :=
  ⟨Function.update s.array (i + 1) (s.array i), s.permute.map fun p => Function.update p (i + 1) (p i)⟩

theorem put_shifted (s : SortArrays E) (i : ℤ) (x : E) (t : ℤ) :
    (s.shifted i).put i x t = (s.put (i + 1) x t).reorder (swap i (i + 1)) := by
  obtain ⟨array, _ | permute⟩ := s
  · exact congrArg (SortArrays.mk · _) (update_shift array i x)
  · exact congrArg₂ SortArrays.mk (update_shift array i x) (congrArg some (update_shift permute i t))

theorem sorted_of_stop [Std.Total le] [IsTrans E le] (hlaws : CompareLaws le lessThan greaterThan) {x : E}
    (hfirst : first ≤ i + 1) (hij : i + 1 ≤ j) (hbut : SortedBut le first j (i + 1) (Function.update a (i + 1) x))
    (hstop : ¬ (first ≤ i ∧ lessThan x (a i) = true)) : SortedOn le first j (Function.update a (i + 1) x) := by
  refine hbut.sorted hfirst hij fun hlt => ?_
  rw [add_sub_cancel_right, Function.update_of_ne (by omega), Function.update_self]
  rw [not_and] at hstop
  exact not_not.mp (mt (hlaws.less _ _).mpr (hstop (by omega)))

/-- The invariant fills the gap at `i + 1` with the entry that is being inserted. -/
theorem shiftLoop_returns [Std.Total le] [IsTrans E le] (hlaws : CompareLaws le lessThan greaterThan) (hlo : lo ≤ first)
    (hhi : j ≤ hi) (x : E) (n : ℕ) (s : SortArrays E) (i : ℤ) (hfirst : first ≤ i + 1) (hij : i + 1 ≤ j)
    (hn : i - first < n) (hbut : SortedBut le first j (i + 1) (Function.update s.array (i + 1) x)) :
    ∃ s' i', (∀ fuel, n < fuel → shiftLoop lo hi lessThan first x fuel s i = .ok (s', i')) ∧ first ≤ i' + 1 ∧
      i' + 1 ≤ j ∧ SortedOn le first j (Function.update s'.array (i' + 1) x) ∧
      ∃ σ, Within first j σ ∧ ∀ t, s'.put (i' + 1) x t = (s.put (i + 1) x t).reorder σ := by
  induction n generalizing s i with
  | zero =>
    refine ⟨s, i, fun fuel hf => ?_, hfirst, hij, sorted_of_stop hlaws hfirst hij hbut (by omega), 1, within_one _ _,
      fun t => (reorder_one _).symm⟩
    obtain ⟨f, rfl⟩ : ∃ f, fuel = f + 1 := ⟨fuel - 1, by omega⟩
    exact if_neg (by omega)
  | succ n ih =>
    have hunfold : ∀ f, shiftLoop lo hi lessThan first x (f + 1) s i =
        if first ≤ i ∧ lessThan x (s.array i) = true then shiftLoop lo hi lessThan first x f (s.shifted i) (i - 1)
        else .ok (s, i) := by
      intro f
      rw [shiftLoop]
      by_cases hfi : first ≤ i
      · have hin : lo ≤ i ∧ i ≤ hi := by omega
        have hin' : lo ≤ i + 1 ∧ i + 1 ≤ hi := by omega
        rw [if_pos hfi, bind_ok (getAt_eq s.array hin)]
        by_cases hless : lessThan x (s.array i) = true
        · rw [if_pos hless, if_pos ⟨hfi, hless⟩, bind_ok (setAt_eq s.array _ hin')]
          rw [bind_ok (mapM_ok (g := fun p => Function.update p (i + 1) (p i)) (fun p => ?_) s.permute)]
          · rfl
          · rw [bind_ok (getAt_eq p hin), setAt_eq p _ hin']
        · rw [if_neg hless, if_neg fun h => hless h.2]
      · rw [if_neg hfi, if_neg fun h => hfi h.1]
    by_cases hmove : first ≤ i ∧ lessThan x (s.array i) = true
    · have hgap : Function.update (s.shifted i).array i x = Function.update s.array (i + 1) x ∘ swap i (i + 1) :=
        update_shift s.array i x
      have hbut' : SortedBut le first j (i - 1 + 1) (Function.update (s.shifted i).array (i - 1 + 1) x) := by
        rw [sub_add_cancel, hgap]
        refine hbut.moved hij hmove.1 ?_
        rw [Function.update_of_ne (by omega), Function.update_self]
        exact (hlaws.less _ _).mp hmove.2
      obtain ⟨s', i', hrun, hfirst', hij', hsorted, σ, hσ, hput⟩ :=
        ih (s.shifted i) (i - 1) (by omega) (by omega) (by omega) hbut'
      refine ⟨s', i', fun fuel hf => ?_, hfirst', hij', hsorted, swap i (i + 1) * σ,
        (within_swap (by omega) (by omega)).mul hσ, fun t => ?_⟩
      · obtain ⟨f, rfl⟩ : ∃ f, fuel = f + 1 := ⟨fuel - 1, by omega⟩
        rw [hunfold, if_pos hmove]
        exact hrun f (by omega)
      · rw [hput, sub_add_cancel, put_shifted, reorder_mul]
    · refine ⟨s, i, fun fuel hf => ?_, hfirst, hij, sorted_of_stop hlaws hfirst hij hbut hmove, 1, within_one _ _,
        fun t => (reorder_one _).symm⟩
      obtain ⟨f, rfl⟩ : ∃ f, fuel = f + 1 := ⟨fuel - 1, by omega⟩
      rw [hunfold, if_neg hmove]

theorem insertOne_returns [Std.Total le] [IsTrans E le] (hlaws : CompareLaws le lessThan greaterThan) (hlo : lo ≤ first)
    (hhi : j ≤ hi) (n : ℕ) (s : SortArrays E) (hfirst : first < j) (hn : j - 1 - first < n)
    (hsorted : SortedOn le first (j - 1) s.array) :
    ∃ s', (∀ fuel, n < fuel → insertOne lo hi lessThan first fuel s j = .ok s') ∧ Reorders first j s s' ∧
      SortedOn le first j s'.array := by
  have hj : lo ≤ j ∧ j ≤ hi := by omega
  have hbut : SortedBut le first j (j - 1 + 1) (Function.update s.array (j - 1 + 1) (s.array j)) := by
    rw [sub_add_cancel, Function.update_eq_self]
    exact ⟨fun k l h1 h2 h3 hk hl => hsorted k l h1 h2 (by omega), fun k h1 h2 => by omega⟩
  obtain ⟨s', i', hrun, hfirst', hij', hsorted', σ, hσ, hput⟩ :=
    shiftLoop_returns hlaws hlo hhi (s.array j) n s (j - 1) (by omega) (by omega) hn hbut
  refine ⟨s'.put (i' + 1) (s.array j) ((s.permute.map (· j)).getD 0), fun fuel hf => ?_, ⟨σ, hσ, ?_⟩, hsorted'⟩
  · rw [insertOne, bind_ok (getAt_eq s.array hj), bind_ok (mapM_ok (fun p => getAt_eq p hj) s.permute),
      bind_ok (hrun fuel hf)]
    dsimp only
    rw [bind_ok (setAt_eq s'.array _ (by omega)), bind_ok (mapM_ok (fun p => setAt_eq p _ (by omega)) s'.permute)]
    rfl
  · rw [hput, sub_add_cancel, put_self]

/-- The rounds of the insertion sort from `j` on. -/
theorem insertions_return [Std.Total le] [IsTrans E le] (hlaws : CompareLaws le lessThan greaterThan) (hlo : lo ≤ first)
    (hhi : last ≤ hi) {n : ℕ} (hn : last - first < n) (m : ℕ) (s : SortArrays E) (j : ℤ) (hfirst : first < j)
    (hm : last - j < m) (hjlast : j ≤ last + 1) (hsorted : SortedOn le first (j - 1) s.array) :
    ∃ s', (∀ fuel, n < fuel →
        (IntLoop.upto j (last + 1)).foldlM (insertOne lo hi lessThan first fuel) s = .ok s') ∧
      Reorders first last s s' ∧ SortedOn le first last s'.array := by
  induction m generalizing s j with
  | zero =>
    obtain rfl : j = last + 1 := by omega
    refine ⟨s, fun fuel _ => ?_, Reorders.refl _ _ s, by rwa [add_sub_cancel_right] at hsorted⟩
    rw [IntLoop.upto_eq_nil le_rfl]
    rfl
  | succ m ih =>
    rcases lt_or_ge last j with hend | hle
    · exact ih s j hfirst (by omega) hjlast hsorted
    · obtain ⟨s₁, h₁, hR₁, hsorted₁⟩ := insertOne_returns hlaws hlo (hle.trans hhi) n s hfirst (by omega) hsorted
      obtain ⟨s₂, h₂, hR₂, hsorted₂⟩ := ih s₁ (j + 1) (by omega) (by omega) (by omega) (by rwa [add_sub_cancel_right])
      refine ⟨s₂, fun fuel hf => ?_, (hR₁.mono le_rfl hle).trans hR₂, hsorted₂⟩
      rw [IntLoop.upto_cons (by omega), List.foldlM_cons, bind_ok (h₁ fuel hf), h₂ fuel hf]

theorem insertionSort_returns [Std.Total le] [IsTrans E le] (hlaws : CompareLaws le lessThan greaterThan) (hlo : lo ≤ first)
    (hhi : last ≤ hi) {n : ℕ} (hn : last - first < n) (s : SortArrays E) :
    ∃ s', (∀ fuel, n < fuel → insertionSort lo hi lessThan first last fuel s = .ok s') ∧ Reorders first last s s' ∧
      SortedOn le first last s'.array := by
  rcases le_or_gt first last with hle | hgt
  · exact insertions_return hlaws hlo hhi hn n s (first + 1) (by omega) (by omega) (by omega)
      (sortedOn_of_le (by omega))
  · refine ⟨s, fun fuel _ => ?_, Reorders.refl _ _ s, sortedOn_of_le hgt.le⟩
    rw [insertionSort, IntLoop.upto_eq_nil (by omega)]
    rfl

end

/-! ## The recursion -/

section

variable {E : Type} {le : E → E → Prop} {lessThan greaterThan : E → E → Bool} {lo hi first last crossover : ℤ}

/-- The pivot goes to its place. -/
theorem pivot_placed {a : ℤ → E} {j : ℤ} (hfirst : first ≤ j) (hlow : ∀ k, first < k → k ≤ j → le (a k) (a first))
    (hhigh : ∀ k, j < k → k ≤ last → le (a first) (a k)) :
    (∀ k, first ≤ k → k ≤ j - 1 → le ((a ∘ swap first j) k) ((a ∘ swap first j) j)) ∧
      ∀ k, j + 1 ≤ k → k ≤ last → le ((a ∘ swap first j) j) ((a ∘ swap first j) k) := by
  constructor
  · intro k h1 h2
    rw [Function.comp_apply, Function.comp_apply, Equiv.swap_apply_right]
    rcases h1.eq_or_lt with rfl | h
    · rw [Equiv.swap_apply_left]
      exact hlow j (by omega) le_rfl
    · rw [Equiv.swap_apply_of_ne_of_ne (by omega) (by omega)]
      exact hlow k h (by omega)
  · intro k h1 h2
    rw [Function.comp_apply, Function.comp_apply, Equiv.swap_apply_right,
      Equiv.swap_apply_of_ne_of_ne (by omega) (by omega)]
    exact hhigh k (by omega) h2

variable (lo hi) in
theorem quickSort_returns [Std.Total le] [IsTrans E le] (hlaws : CompareLaws le lessThan greaterThan) (hcross : 3 ≤ crossover)
    (n : ℕ) (first last : ℤ) (s : SortArrays E) (hlo : lo ≤ first) (hhi : last ≤ hi) (hn : last - first < n) :
    ∃ s', (∀ fuel, n + 2 < fuel → quickSort lo hi lessThan greaterThan crossover fuel first last s = .ok s') ∧
      Reorders first last s s' ∧ SortedOn le first last s'.array := by
  induction n generalizing first last s with
  | zero =>
    obtain ⟨s', hrun, hrest⟩ := insertionSort_returns (n := 1) hlaws hlo hhi (by omega) s
    refine ⟨s', fun fuel hf => ?_, hrest⟩
    obtain ⟨f, rfl⟩ : ∃ f, fuel = f + 1 := ⟨fuel - 1, by omega⟩
    rw [quickSort, if_neg (by omega)]
    exact hrun f (by omega)
  | succ n ih =>
    by_cases hbig : crossover < last - first
    · obtain ⟨s₁, h₁, hR₁⟩ := chooseMedian_returns greaterThan s hlo hhi (by omega)
      obtain ⟨s₂, j, h₂, hR₂, hfirst, hlast, hlow, hhigh⟩ := partitionLoop_returns hlaws hlo hhi (n + 1) s₁ (first + 1) last
        (by omega) (by omega) le_rfl (by omega) hn ⟨fun k h1 h2 => by omega, fun k h1 h2 => by omega⟩
      obtain ⟨s₃, hs₃⟩ : ∃ s₃, s₃ = s₂.reorder (swap first j) := ⟨_, rfl⟩
      have hR₃ : Reorders first last s₂ s₃ := hs₃ ▸ reorders_swap s₂ (by omega) (by omega)
      obtain ⟨hlow₃, hhigh₃⟩ : (∀ k, first ≤ k → k ≤ j - 1 → le (s₃.array k) (s₃.array j)) ∧
          ∀ k, j + 1 ≤ k → k ≤ last → le (s₃.array j) (s₃.array k) := hs₃ ▸ pivot_placed hfirst hlow hhigh
      obtain ⟨s₄, h₄, hR₄, hsorted₄⟩ := ih first (j - 1) s₃ hlo (by omega) (by omega)
      obtain ⟨s₅, h₅, hR₅, hsorted₅⟩ := ih (j + 1) last s₄ (by omega) hhi (by omega)
      have hj₄ : s₄.array j = s₃.array j := hR₄.fixed (Or.inr (by omega))
      have hj₅ : s₅.array j = s₃.array j := (hR₅.fixed (Or.inl (by omega))).trans hj₄
      refine ⟨s₅, fun fuel hf => ?_, ?_, ?_⟩
      · obtain ⟨f, rfl⟩ : ∃ f, fuel = f + 1 := ⟨fuel - 1, by omega⟩
        rw [quickSort, if_pos hbig, bind_ok h₁, bind_ok (h₂ f (by omega))]
        dsimp only
        rw [bind_ok (swapBoth_eq s₂ (by omega) (by omega)), ← hs₃, bind_ok (h₄ f (by omega))]
        exact h₅ f (by omega)
      · exact (((hR₁.trans hR₂).trans hR₃).trans (hR₄.mono le_rfl (by omega))).trans (hR₅.mono (by omega) le_rfl)
      · -- The calls do not touch each other's part, and permute the entries that the partition has bounded.
        refine SortedOn.join (j := j) (hsorted₄.congr fun k h1 h2 => hR₅.fixed (Or.inl (by omega))) hsorted₅
          (fun k h1 h2 => ?_) (hR₅.forall fun k h1 h2 => ?_)
        · rw [hR₅.fixed (Or.inl (by omega)), hj₅]
          exact hR₄.forall (P := fun x => le x (s₃.array j)) hlow₃ k h1 h2
        · rw [hj₅, hR₄.fixed (Or.inr (by omega))]
          exact hhigh₃ k h1 h2
    · obtain ⟨s', hrun, hrest⟩ := insertionSort_returns hlaws hlo hhi hn s
      refine ⟨s', fun fuel hf => ?_, hrest⟩
      obtain ⟨f, rfl⟩ : ∃ f, fuel = f + 1 := ⟨fuel - 1, by omega⟩
      rw [quickSort, if_neg hbig]
      exact hrun f (by omega)

theorem quickSort_sorts [Std.Total le] [IsTrans E le] (hlaws : CompareLaws le lessThan greaterThan) (hcross : 3 ≤ crossover)
    (first last : ℤ) (s : SortArrays E) :
    ∃ s', (∀ fuel, (last - first).toNat + 3 < fuel →
        quickSort first last lessThan greaterThan crossover fuel first last s = .ok s') ∧
      (∃ σ, Within first last σ ∧ s'.array = s.array ∘ σ ∧ s'.permute = s.permute.map (· ∘ σ)) ∧
      SortedOn le first last s'.array := by
  obtain ⟨s', hrun, ⟨σ, hσ, rfl⟩, hsorted⟩ := quickSort_returns first last hlaws hcross
    ((last - first).toNat + 1) first last s le_rfl le_rfl (by omega)
  exact ⟨_, fun fuel hf => hrun fuel (by omega), ⟨σ, hσ, rfl, rfl⟩, hsorted⟩

end

/-- Integers in the order of their last digits. -/
theorem lastDigit_laws : CompareLaws (fun a b : ℤ => a % 10 ≤ b % 10) (fun a b => decide (a % 10 < b % 10))
    (fun a b => decide (a % 10 > b % 10)) := by
  constructor <;> intro a b <;> simp

theorem lastDigit_sorts : ∃ s', (∀ fuel, (13 - 2 : ℤ).toNat + 3 < fuel →
      quickSort 2 13 (fun a b : ℤ => decide (a % 10 < b % 10)) (fun a b => decide (a % 10 > b % 10)) 3 fuel 2 13
        ⟨fun k => 7 * k, some id⟩ = .ok s') ∧
    (∃ σ, Within 2 13 σ ∧ s'.array = (fun k => 7 * k) ∘ σ ∧ s'.permute = (some id).map (· ∘ σ)) ∧
    SortedOn (fun a b : ℤ => a % 10 ≤ b % 10) 2 13 s'.array :=
  have : Std.Total fun a b : ℤ => a % 10 ≤ b % 10 := ⟨fun _ _ => le_total _ _⟩
  have : IsTrans ℤ fun a b : ℤ => a % 10 ≤ b % 10 := ⟨fun _ _ _ => le_trans⟩
  quickSort_sorts lastDigit_laws le_rfl 2 13 ⟨fun k => 7 * k, some id⟩

/-! ## Vertices -/

section

variable {K : Type} [LinearOrder K]

/-- The elevation goes first, then `y`, then `x`. -/
def vertexKey (v : Vertex K) : K ×ₗ (K ×ₗ K) := toLex (v.z, toLex (v.y, v.x))

def vertexXYKey (v : Vertex K) : K ×ₗ K := toLex (v.y, v.x)

theorem compareLessThan_iff (v w : Vertex K) : compareLessThan v w = true ↔ vertexKey v < vertexKey w := by
  simp only [vertexKey, Prod.Lex.toLex_lt_toLex]
  unfold compareLessThan
  split_ifs with h1 h2 h3 h4
  all_goals simp_all

theorem compareGreaterThan_eq (v w : Vertex K) : compareGreaterThan v w = compareLessThan w v := by
  unfold compareGreaterThan compareLessThan
  simp only [gt_iff_lt, eq_comm (a := v.z), eq_comm (a := v.y)]

theorem compareXYLessThan_iff (v w : Vertex K) : compareXYLessThan v w = true ↔ vertexXYKey v < vertexXYKey w := by
  simp only [vertexXYKey, Prod.Lex.toLex_lt_toLex]
  unfold compareXYLessThan
  split_ifs with h1 h2
  all_goals simp_all

theorem compareXYGreaterThan_eq (v w : Vertex K) : compareXYGreaterThan v w = compareXYLessThan w v := by
  unfold compareXYGreaterThan compareXYLessThan
  simp only [gt_iff_lt, eq_comm (a := v.y)]

variable {ι Λ : Type} [LinearOrder Λ]

theorem compareLaws_of_key {key : ι → Λ} {lessThan greaterThan : ι → ι → Bool}
    (hless : ∀ p q, lessThan p q = true ↔ key p < key q) (hgreater : ∀ p q, greaterThan p q = lessThan q p) :
    CompareLaws (fun p q => key p ≤ key q) lessThan greaterThan := by
  constructor
  · intro p q
    rw [hless, not_le]
  · intro p q
    rw [hgreater, hless, not_le]

/-- The array that starts with the indices ends with where each entry comes from. -/
theorem quickSort_by_key {key : ι → Λ} {lessThan greaterThan : ι → ι → Bool}
    (hless : ∀ p q, lessThan p q = true ↔ key p < key q) (hgreater : ∀ p q, greaterThan p q = lessThan q p)
    (vertices : ℤ → ι) (nvertices : ℤ) (permute : Option (ℤ → ℤ)) (hpermute : ∀ p ∈ permute, p = id) :
    ∃ s', (∀ fuel, nvertices.toNat + 3 < fuel → quickSort 0 (nvertices - 1) lessThan greaterThan qsortCrossover fuel 0
        (nvertices - 1) ⟨vertices, permute⟩ = .ok s') ∧
      SortedOn (fun p q => key p ≤ key q) 0 (nvertices - 1) s'.array ∧
      ∀ p ∈ s'.permute, Function.Injective p ∧ ∀ k, 0 ≤ k → k < nvertices →
        (0 ≤ p k ∧ p k < nvertices) ∧ s'.array k = vertices (p k) := by
  have : Std.Total fun p q => key p ≤ key q := ⟨fun _ _ => le_total _ _⟩
  have : IsTrans ι fun p q => key p ≤ key q := ⟨fun _ _ _ => le_trans⟩
  obtain ⟨s', hrun, ⟨σ, hσ, rfl⟩, hsorted⟩ := quickSort_returns 0 (nvertices - 1)
    (compareLaws_of_key hless hgreater) (show 3 ≤ qsortCrossover by decide) (nvertices.toNat + 1) 0 (nvertices - 1) ⟨vertices, permute⟩ le_rfl le_rfl
    (by omega)
  refine ⟨_, fun fuel hf => hrun fuel (by omega), hsorted, fun p hp => ?_⟩
  obtain ⟨p', hp', rfl⟩ := Option.map_eq_some_iff.mp hp
  obtain rfl := hpermute p' hp'
  refine ⟨σ.injective, fun k h1 h2 => ⟨?_, rfl⟩⟩
  have := hσ.mem h1 (show k ≤ nvertices - 1 by omega)
  exact ⟨this.1, Int.lt_of_le_sub_one this.2⟩

theorem sortVertices_returns (mem : ι → Vertex K) (vertices : ℤ → ι) (nvertices : ℤ) (returnPermute : Bool) :
    ∃ s', (∀ fuel, nvertices.toNat + 3 < fuel → sortVertices mem vertices nvertices returnPermute fuel = .ok s') ∧
      SortedOn (fun p q => vertexKey (mem p) ≤ vertexKey (mem q)) 0 (nvertices - 1) s'.array ∧
      ∀ p ∈ s'.permute, Function.Injective p ∧ ∀ k, 0 ≤ k → k < nvertices →
        (0 ≤ p k ∧ p k < nvertices) ∧ s'.array k = vertices (p k) :=
  quickSort_by_key (fun _ _ => compareLessThan_iff _ _) (fun _ _ => compareGreaterThan_eq _ _) vertices nvertices _
    (by cases returnPermute <;> simp)

theorem sortXYVertices_returns (mem : ι → Vertex K) (vertices : ℤ → ι) (nvertices : ℤ) (returnPermute : Bool) :
    ∃ s', (∀ fuel, nvertices.toNat + 3 < fuel → sortXYVertices mem vertices nvertices returnPermute fuel = .ok s') ∧
      SortedOn (fun p q => vertexXYKey (mem p) ≤ vertexXYKey (mem q)) 0 (nvertices - 1) s'.array ∧
      ∀ p ∈ s'.permute, Function.Injective p ∧ ∀ k, 0 ≤ k → k < nvertices →
        (0 ≤ p k ∧ p k < nvertices) ∧ s'.array k = vertices (p k) :=
  quickSort_by_key (fun _ _ => compareXYLessThan_iff _ _) (fun _ _ => compareXYGreaterThan_eq _ _) vertices nvertices _
    (by cases returnPermute <;> simp)

end

end ParFlow.Geom
