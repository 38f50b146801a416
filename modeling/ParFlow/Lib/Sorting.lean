import Mathlib

/-! In-place bubble sort as nested compare-and-swap passes over a list. -/

namespace BubbleSort

variable {α : Type*} [LinearOrder α]

/-- One pass of compare-and-swap over the positions `0 .. n`. -/
def bubblePass : ℕ → List α → List α
  | n + 1, a :: b :: l => if a > b then b :: bubblePass n (a :: l) else a :: bubblePass n (b :: l)
  | _, l => l

/-- Passes over `0 .. n`, then `0 .. n - 1`, down to one comparison. -/
def bubbleSort : ℕ → List α → List α
  | 0, l => l
  | n + 1, l => bubbleSort n (bubblePass (n + 1) l)

theorem bubblePass_perm (n : ℕ) (l : List α) : (bubblePass n l).Perm l := by
  induction n generalizing l with
  | zero => simp [bubblePass]
  | succ n ih =>
    match l with
    | [] => simp [bubblePass]
    | [a] => simp [bubblePass]
    | a :: b :: l =>
      rw [bubblePass]
      split_ifs
      · exact ((ih (a :: l)).cons b).trans (List.Perm.swap a b l)
      · exact (ih (b :: l)).cons a

theorem bubbleSort_perm (n : ℕ) (l : List α) : (bubbleSort n l).Perm l := by
  induction n generalizing l with
  | zero => exact List.Perm.refl l
  | succ n ih => exact (ih _).trans (bubblePass_perm _ l)

/-- A pass over a prefix carries the largest element of the prefix to its end. -/
theorem bubblePass_append (n : ℕ) (pre suf : List α) (hlen : pre.length = n + 1) :
    ∃ pre' m, bubblePass n (pre ++ suf) = pre' ++ m :: suf ∧ pre'.length = n ∧
      (pre' ++ [m]).Perm pre ∧ ∀ a ∈ pre', a ≤ m := by
  induction n generalizing pre with
  | zero =>
    obtain ⟨a, rfl⟩ := List.length_eq_one_iff.mp hlen
    exact ⟨[], a, by simp [bubblePass], rfl, by simp, by simp⟩
  | succ n ih =>
    match pre, hlen with
    | a :: b :: l, hlen =>
      have hl : l.length = n := by simpa using hlen
      rw [List.cons_append, List.cons_append, bubblePass]
      split_ifs with hab
      · obtain ⟨p, m, hp, hlp, hperm, hmax⟩ := ih (a :: l) (by simp [hl])
        refine ⟨b :: p, m, ?_, by simp [hlp], ?_, ?_⟩
        · rw [List.cons_append] at hp
          rw [hp, List.cons_append]
        · exact (hperm.cons b).trans (List.Perm.swap a b l)
        · have ham : a ∈ p ++ [m] := hperm.mem_iff.mpr List.mem_cons_self
          have ha : a ≤ m := by
            rcases List.mem_append.mp ham with h | h
            · exact hmax a h
            · exact (List.mem_singleton.mp h).le
          intro c hc
          rcases List.mem_cons.mp hc with rfl | hc
          · exact (le_of_lt hab).trans ha
          · exact hmax c hc
      · obtain ⟨p, m, hp, hlp, hperm, hmax⟩ := ih (b :: l) (by simp [hl])
        refine ⟨a :: p, m, ?_, by simp [hlp], hperm.cons a, ?_⟩
        · rw [List.cons_append] at hp
          rw [hp, List.cons_append]
        · have hbm : b ∈ p ++ [m] := hperm.mem_iff.mpr List.mem_cons_self
          have hb : b ≤ m := by
            rcases List.mem_append.mp hbm with h | h
            · exact hmax b h
            · exact (List.mem_singleton.mp h).le
          intro c hc
          rcases List.mem_cons.mp hc with rfl | hc
          · exact (not_lt.mp hab).trans hb
          · exact hmax c hc

/-- The suffix behind the remaining passes is sorted and bounds the prefix from above. -/
theorem bubbleSort_sorted_append (n : ℕ) (pre suf : List α) (hlen : pre.length = n + 1)
    (hsuf : suf.Pairwise (· ≤ ·)) (hle : ∀ a ∈ pre, ∀ b ∈ suf, a ≤ b) :
    (bubbleSort n (pre ++ suf)).Pairwise (· ≤ ·) := by
  induction n generalizing pre suf with
  | zero =>
    obtain ⟨a, rfl⟩ := List.length_eq_one_iff.mp hlen
    exact List.pairwise_cons.mpr ⟨fun b hb => hle a (by simp) b hb, hsuf⟩
  | succ n ih =>
    obtain ⟨p, m, hp, hlp, hperm, hmax⟩ := bubblePass_append (n + 1) pre suf hlen
    rw [bubbleSort, hp]
    have hmem : ∀ c ∈ p ++ [m], ∀ b ∈ suf, c ≤ b :=
      fun c hc b hb => hle c (hperm.mem_iff.mp hc) b hb
    refine ih p (m :: suf) hlp (List.pairwise_cons.mpr ⟨hmem m (by simp), hsuf⟩) ?_
    intro c hc b hb
    rcases List.mem_cons.mp hb with rfl | hb
    · exact hmax c hc
    · exact hmem c (List.mem_append_left _ hc) b hb

/-- Bubble sort over all positions of a list of distinct elements leaves it strictly increasing. -/
theorem bubbleSort_strict {l : List α} (hl : l.Nodup) :
    (bubbleSort (l.length - 1) l).Pairwise (· < ·) := by
  rcases l with _ | ⟨a, l⟩
  · exact List.Pairwise.nil
  · have hs := bubbleSort_sorted_append l.length (a :: l) [] (by simp) List.Pairwise.nil (by simp)
    rw [List.append_nil] at hs
    have hn : (bubbleSort l.length (a :: l)).Nodup := (bubbleSort_perm _ _).nodup_iff.mpr hl
    exact (hs.and hn).imp fun h => lt_of_le_of_ne h.1 h.2

end BubbleSort

/-! Arrays indexed by integers whose entries change places within an interval, and arrays that are sorted on an
interval. -/

namespace IntervalPerm

open Equiv (Perm swap)

section

variable {α : Type} {first last lo hi i j k : ℤ} {σ τ : Perm ℤ}

/-- The permutation moves nothing outside `first, …, last`. -/
def Within (first last : ℤ) (σ : Perm ℤ) : Prop := ∀ k, σ k ≠ k → first ≤ k ∧ k ≤ last

theorem within_one (first last : ℤ) : Within first last 1 := fun _ h => absurd rfl h

theorem Within.mono (h : Within first last σ) (hlo : lo ≤ first) (hhi : last ≤ hi) : Within lo hi σ := by
  intro k hk
  obtain ⟨h1, h2⟩ := h k hk
  exact ⟨hlo.trans h1, h2.trans hhi⟩

theorem Within.mul (hσ : Within first last σ) (hτ : Within first last τ) : Within first last (σ * τ) := by
  intro k hk
  by_cases hfix : τ k = k
  · rw [Perm.mul_apply, hfix] at hk
    exact hσ k hk
  · exact hτ k hfix

theorem within_swap (hi : first ≤ i ∧ i ≤ last) (hj : first ≤ j ∧ j ≤ last) : Within first last (swap i j) := by
  intro k hk
  rcases eq_or_ne k i with rfl | hki
  · exact hi
  rcases eq_or_ne k j with rfl | hkj
  · exact hj
  exact absurd (Equiv.swap_apply_of_ne_of_ne hki hkj) hk

theorem Within.fixed (h : Within first last σ) (hk : k < first ∨ last < k) : σ k = k := by
  by_contra hne
  have := h k hne
  omega

theorem Within.mem (h : Within first last σ) (h1 : first ≤ k) (h2 : k ≤ last) : first ≤ σ k ∧ σ k ≤ last := by
  by_cases hfix : σ k = k
  · rw [hfix]
    exact ⟨h1, h2⟩
  · exact h (σ k) (mt (fun heq => σ.injective heq) hfix)

theorem comp_swap (a : ℤ → α) (i j : ℤ) : a ∘ swap i j = Function.update (Function.update a i (a j)) j (a i) := by
  funext k
  rw [Function.comp_apply, Equiv.swap_apply_def]
  rcases eq_or_ne k j with rfl | hkj
  · rw [Function.update_self, if_pos rfl]
    split_ifs with h
    · rw [h]
    · rfl
  rw [Function.update_of_ne hkj, if_neg hkj]
  rcases eq_or_ne k i with rfl | hki
  · rw [Function.update_self, if_pos rfl]
  · rw [Function.update_of_ne hki, if_neg hki]

/-- An entry moves one place up and leaves its own place to `x`. -/
theorem update_shift (a : ℤ → α) (i : ℤ) (x : α) :
    Function.update (Function.update a (i + 1) (a i)) i x = Function.update a (i + 1) x ∘ swap i (i + 1) := by
  have hne : i ≠ i + 1 := by omega
  rw [comp_swap, Function.update_self, Function.update_of_ne hne, Function.update_comm hne, Function.update_idem]

end

section

variable {α : Type} {le : α → α → Prop} {first last j : ℤ} {a b : ℤ → α} {σ : Perm ℤ}

/-- The entries from `first` to `last` do not fall. -/
def SortedOn (le : α → α → Prop) (first last : ℤ) (a : ℤ → α) : Prop :=
  ∀ k l, first ≤ k → k ≤ l → l ≤ last → le (a k) (a l)

theorem sortedOn_of_le [Std.Refl le] (h : last ≤ first) : SortedOn le first last a := by
  intro k l h1 h2 h3
  obtain rfl : k = l := by omega
  exact refl _

theorem SortedOn.congr (h : SortedOn le first last a) (hab : ∀ k, first ≤ k → k ≤ last → b k = a k) :
    SortedOn le first last b := by
  intro k l h1 h2 h3
  rw [hab k h1 (by omega), hab l (by omega) h3]
  exact h k l h1 h2 h3

/-- A bound for all entries of the interval remains one when they change places. -/
theorem forall_comp {P : α → Prop} (hσ : Within first last σ) (h : ∀ k, first ≤ k → k ≤ last → P (a k)) :
    ∀ k, first ≤ k → k ≤ last → P ((a ∘ σ) k) := by
  intro k h1 h2
  obtain ⟨h3, h4⟩ := hσ.mem h1 h2
  exact h _ h3 h4

/-- Two sorted parts and an entry between them. -/
theorem SortedOn.join [Std.Refl le] [IsTrans α le] (hleft : SortedOn le first (j - 1) a)
    (hright : SortedOn le (j + 1) last a) (hlow : ∀ k, first ≤ k → k ≤ j - 1 → le (a k) (a j))
    (hhigh : ∀ k, j + 1 ≤ k → k ≤ last → le (a j) (a k)) : SortedOn le first last a := by
  have hupTo : ∀ k, first ≤ k → k ≤ j → le (a k) (a j) := by
    intro k h1 h2
    rcases h2.eq_or_lt with rfl | h
    · exact refl _
    · exact hlow k h1 (by omega)
  have hfrom : ∀ k, j ≤ k → k ≤ last → le (a j) (a k) := by
    intro k h1 h2
    rcases h1.eq_or_lt with rfl | h
    · exact refl _
    · exact hhigh k (by omega) h2
  intro k l h1 h2 h3
  rcases lt_or_ge l j with hl | hl
  · exact hleft k l h1 h2 (by omega)
  rcases lt_or_ge j k with hk | hk
  · exact hright k l (by omega) h2 h3
  exact trans_of le (hupTo k h1 hk) (hfrom l hl h3)

end

end IntervalPerm
