import Mathlib

/-! The integers divided into intervals of given lengths that follow each other and repeat for ever, in both
directions. Interval `i` of a round holds what lies from the sum of the lengths before it up to the next sum. -/

namespace PeriodicIntervals

/-- Lengths that make up a round. -/
structure IsRound (lens : List ℤ) : Prop where
  ne_nil : lens ≠ []
  pos : ∀ l ∈ lens, 0 < l

/-- Where interval `i` of a round begins. -/
def bound (lens : List ℤ) (i : ℕ) : ℤ := (lens.take i).sum

/-- The interval of the first round that holds `x`. -/
def index : List ℤ → ℤ → ℕ
  | [], _ => 0
  | l :: ls, x => if x < l then 0 else index ls (x - l) + 1

/-- The number of the interval that holds `x`. -/
def indexAt (lens : List ℤ) (x : ℤ) : ℕ := index lens (x % lens.sum)

/-- Where the interval that holds `x` ends. -/
def endAt (lens : List ℤ) (x : ℤ) : ℤ := x / lens.sum * lens.sum + bound lens (indexAt lens x + 1)

/-! ## One round -/

section Round

variable {lens : List ℤ} {i j : ℕ} {x : ℤ}

@[simp] theorem bound_zero (lens : List ℤ) : bound lens 0 = 0 := rfl

@[simp] theorem bound_length (lens : List ℤ) : bound lens lens.length = lens.sum := by
  rw [bound, List.take_length]

theorem bound_cons (l : ℤ) (ls : List ℤ) (i : ℕ) : bound (l :: ls) (i + 1) = l + bound ls i := by
  rw [bound, List.take_succ_cons, List.sum_cons]
  rfl

theorem bound_succ (hi : i < lens.length) : bound lens (i + 1) = bound lens i + lens[i] := by
  rw [bound, List.sum_take_succ lens i hi]
  rfl

theorem bound_lt (hpos : ∀ l ∈ lens, 0 < l) (hij : i < j) (hj : j ≤ lens.length) : bound lens i < bound lens j := by
  induction j, hij using Nat.le_induction with
  | base =>
    rw [bound_succ hj]
    have := hpos _ (List.getElem_mem hj)
    omega
  | succ j hij ih =>
    rw [bound_succ hj]
    have hmem := hpos _ (List.getElem_mem hj)
    have hbefore := ih (by omega)
    omega

theorem bound_le (hpos : ∀ l ∈ lens, 0 < l) (hij : i ≤ j) (hj : j ≤ lens.length) : bound lens i ≤ bound lens j := by
  rcases hij.lt_or_eq with hlt | rfl
  · exact (bound_lt hpos hlt hj).le
  · exact le_rfl

theorem IsRound.length_pos (h : IsRound lens) : 0 < lens.length := List.length_pos_iff.mpr h.ne_nil

theorem IsRound.sum_pos (h : IsRound lens) : 0 < lens.sum := by
  have hlt := bound_lt h.pos h.length_pos le_rfl
  rwa [bound_zero, bound_length] at hlt

theorem index_spec (hx : 0 ≤ x) (hsum : x < lens.sum) :
    index lens x < lens.length ∧ bound lens (index lens x) ≤ x ∧ x < bound lens (index lens x + 1) := by
  induction lens generalizing x with
  | nil => exact absurd (lt_of_le_of_lt hx hsum) (lt_irrefl 0)
  | cons l ls ih =>
    unfold index
    rw [List.sum_cons] at hsum
    split_ifs with hl
    · refine ⟨Nat.zero_lt_succ _, hx, ?_⟩
      rwa [bound_cons, bound_zero, add_zero]
    · obtain ⟨hlen, hle, hlt⟩ := @ih (x - l) (by omega) (by omega)
      refine ⟨Nat.succ_lt_succ hlen, ?_, ?_⟩
      · rw [bound_cons]
        omega
      · rw [bound_cons]
        omega

/-- The interval between whose bounds `x` lies is the one that is found. -/
theorem index_unique (hpos : ∀ l ∈ lens, 0 < l) (hi : i < lens.length) (hle : bound lens i ≤ x)
    (hlt : x < bound lens (i + 1)) : index lens x = i := by
  have hx : 0 ≤ x := (bound_le hpos (Nat.zero_le i) hi.le).trans hle
  have hsum : x < lens.sum := by
    rw [← bound_length]
    exact lt_of_lt_of_le hlt (bound_le hpos hi le_rfl)
  obtain ⟨hlen, hle', hlt'⟩ := index_spec hx hsum
  rcases lt_trichotomy (index lens x) i with h | h | h
  · have : bound lens (index lens x + 1) ≤ bound lens i := bound_le hpos h hi.le
    omega
  · exact h
  · have : bound lens (i + 1) ≤ bound lens (index lens x) := bound_le hpos h hlen.le
    omega

end Round

/-! ## All rounds -/

section Rounds

variable {lens : List ℤ} {i : ℕ} {x y q r : ℤ}

theorem indexAt_spec (h : IsRound lens) (x : ℤ) : indexAt lens x < lens.length ∧
    x / lens.sum * lens.sum + bound lens (indexAt lens x) ≤ x ∧ x < endAt lens x := by
  have hdiv := Int.mul_ediv_add_emod x lens.sum
  rw [mul_comm] at hdiv
  obtain ⟨hlen, hle, hlt⟩ := index_spec (Int.emod_nonneg x h.sum_pos.ne') (Int.emod_lt_of_pos x h.sum_pos)
  unfold endAt indexAt
  exact ⟨hlen, by omega, by omega⟩

theorem lt_endAt (h : IsRound lens) (x : ℤ) : x < endAt lens x := (indexAt_spec h x).2.2

/-- What lies between the bounds of interval `i` in round `q` lies in interval `i`. -/
theorem indexAt_unique (h : IsRound lens) (hi : i < lens.length) (hle : q * lens.sum + bound lens i ≤ x)
    (hlt : x < q * lens.sum + bound lens (i + 1)) : x / lens.sum = q ∧ indexAt lens x = i := by
  have hlower : 0 ≤ bound lens i := bound_le h.pos (Nat.zero_le i) hi.le
  have hupper : bound lens (i + 1) ≤ lens.sum := by
    rw [← bound_length]
    exact bound_le h.pos hi le_rfl
  have hquot : x / lens.sum = q := by
    rw [Int.ediv_eq_iff_of_pos h.sum_pos]
    constructor
    · omega
    · omega
  have hdiv := Int.mul_ediv_add_emod x lens.sum
  rw [hquot, mul_comm] at hdiv
  exact ⟨hquot, index_unique h.pos hi (by omega) (by omega)⟩

/-- Up to its end the interval is the same. -/
theorem indexAt_eq_of_lt (h : IsRound lens) (hxy : x ≤ y) (hy : y < endAt lens x) : indexAt lens y = indexAt lens x := by
  obtain ⟨hlen, hle, -⟩ := indexAt_spec h x
  exact (indexAt_unique h hlen (hle.trans hxy) hy).2

theorem indexAt_of_mem_first (h : IsRound lens) (hx : 0 ≤ x) (hlt : x < bound lens 1) : indexAt lens x = 0 ∧
    endAt lens x = bound lens 1 := by
  have hfirst := indexAt_unique (q := 0) h h.length_pos (by simpa using hx) (by simpa using hlt)
  refine ⟨hfirst.2, ?_⟩
  unfold endAt
  rw [hfirst.1, hfirst.2, zero_mul, zero_add]

/-- The end of the last interval is the end of the round. -/
theorem endAt_of_last (hlast : indexAt lens x + 1 = lens.length) :
    endAt lens x = (x / lens.sum + 1) * lens.sum := by
  unfold endAt
  rw [hlast, bound_length]
  ring

/-- A round begins with its first interval, and before it the last one ends. -/
theorem indexAt_round (h : IsRound lens) (q : ℤ) : indexAt lens (q * lens.sum) = 0 ∧
    indexAt lens (q * lens.sum - 1) + 1 = lens.length := by
  have hlast : lens.length - 1 < lens.length := Nat.sub_lt h.length_pos Nat.one_pos
  have hlt := bound_lt h.pos hlast le_rfl
  have hfirst := bound_lt h.pos Nat.zero_lt_one (Nat.succ_le_of_lt h.length_pos)
  have hsucc : lens.length - 1 + 1 = lens.length := Nat.sub_add_cancel h.length_pos
  rw [bound_length] at hlt
  constructor
  · refine (indexAt_unique (q := q) h h.length_pos ?_ ?_).2
    · rw [bound_zero, add_zero]
    · exact lt_add_of_pos_right _ hfirst
  · rw [(indexAt_unique (q := q - 1) h hlast ?_ ?_).2, hsucc]
    · rw [sub_mul, one_mul]
      omega
    · rw [hsucc, bound_length, sub_mul, one_mul]
      omega

end Rounds

end PeriodicIntervals
