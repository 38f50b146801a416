import ParFlow.Lib.IntLoop

/-! Arrays with several dimensions in a linear address space. The offsets of a block are
enumerated by nested loops, the dimension `0` innermost, each with a length and a step. -/

namespace Strided

open IntLoop

variable {len step len' step' : ℕ → ℤ}

/-- The offsets of a block with the dimensions below `d`. -/
def offsets (len step : ℕ → ℤ) : ℕ → List ℤ
  | 0 => [0]
  | d + 1 => (upto 0 (len d)).flatMap fun k => (offsets len step d).map (· + k * step d)

/-- The offset of the last element. -/
def extent (len step : ℕ → ℤ) : ℕ → ℤ
  | 0 => 0
  | d + 1 => extent len step d + step d * (len d - 1)

theorem offsets_succ (len step : ℕ → ℤ) (d : ℕ) : offsets len step (d + 1) =
    (upto 0 (len d)).flatMap fun k => (offsets len step d).map (· + k * step d) := rfl

theorem extent_succ (len step : ℕ → ℤ) (d : ℕ) : extent len step (d + 1) = extent len step d + step d * (len d - 1) := rfl

theorem upto_one : upto 0 1 = [0] := rfl

theorem offsets_congr {d : ℕ} (hlen : ∀ j < d, len j = len' j) (hstep : ∀ j < d, step j = step' j) :
    offsets len step d = offsets len' step' d := by
  induction d with
  | zero => rfl
  | succ d ih =>
    rw [offsets, offsets, hlen d (Nat.lt_succ_self d), hstep d (Nat.lt_succ_self d),
      ih (fun j hj => hlen j (hj.trans (Nat.lt_succ_self d))) fun j hj => hstep j (hj.trans (Nat.lt_succ_self d))]

/-- A dimension of length one can be left out. -/
theorem offsets_skip {i d : ℕ} (hi : len i = 1) (hd : i ≤ d) :
    offsets (fun j => if j < i then len j else len (j + 1)) (fun j => if j < i then step j else step (j + 1)) d =
      offsets len step (d + 1) := by
  induction d, hd using Nat.le_induction with
  | base =>
    have hbelow : offsets (fun j => if j < i then len j else len (j + 1))
        (fun j => if j < i then step j else step (j + 1)) i = offsets len step i :=
      offsets_congr (fun j hj => if_pos hj) fun j hj => if_pos hj
    rw [hbelow, offsets, hi, upto_one]
    simp
  | succ d hd ih =>
    rw [offsets, ih, if_neg (by omega), if_neg (by omega)]
    rfl

/-! ## Walking along a block -/

/-- A body that moves a pointer is run `n + 1` times, with the pointer moved on between the runs. -/
def walkLoop (body : ℤ → List ℤ × ℤ) (stride : ℤ) : ℕ → ℤ → List ℤ × ℤ
  | 0, p => body p
  | n + 1, p => ((body p).1 ++ (walkLoop body stride n ((body p).2 + stride)).1,
      (walkLoop body stride n ((body p).2 + stride)).2)

theorem walkLoop_eq {body : ℤ → List ℤ × ℤ} {l : List ℤ} {e stride : ℤ}
    (hbody : ∀ p, body p = (l.map (p + ·), p + e)) (n : ℕ) (p : ℤ) :
    walkLoop body stride n p = ((upto 0 (n + 1)).flatMap fun k => l.map fun a => p + (a + k * (e + stride)),
      p + (e + n * (e + stride))) := by
  induction n generalizing p with
  | zero =>
    rw [walkLoop, hbody]
    simp [upto_one]
  | succ n ih =>
    have hsplit : upto 0 ((n + 1 : ℕ) + 1) = 0 :: (upto 0 (n + 1)).map (· + 1) := by
      simp only [upto, sub_zero, zero_add]
      rw [show (((n + 1 : ℕ) : ℤ) + 1).toNat = n + 1 + 1 by omega, show ((n : ℤ) + 1).toNat = n + 1 by omega,
        List.range_succ_eq_map]
      simp [Function.comp_def]
    rw [walkLoop, hbody, ih, hsplit]
    simp only [List.flatMap_cons, List.flatMap_map, zero_mul, add_zero, Prod.mk.injEq]
    constructor
    · congr 1
      apply List.flatMap_congr
      intro k _
      apply List.map_congr_left
      intro a _
      ring
    · push_cast
      ring

/-! ## Loops that carry a position -/

section Sweep

variable {σ β : Type*}

/-- A loop over `i` that runs a body and then moves its state on, `n` times. -/
def sweep (body : ℤ → σ → List β × σ) (move : σ → σ) : ℕ → ℤ → σ → List β × σ
  | 0, _, st => ([], st)
  | n + 1, i, st => ((body i st).1 ++ (sweep body move n (i + 1) (move (body i st).2)).1,
      (sweep body move n (i + 1) (move (body i st).2)).2)

/-- When the body and the move add constants to the state, the state is linear in the loop variable. -/
theorem sweep_eq [AddCommGroup σ] {body : ℤ → σ → List β × σ} {out : ℤ → σ → List β} {e m : σ}
    (hbody : ∀ i st, body i st = (out i st, st + e)) (n : ℕ) (i : ℤ) (st : σ) :
    sweep body (· + m) n i st =
      ((upto i (i + n)).flatMap fun j => out j (st + (j - i) • (e + m)), st + (n : ℤ) • (e + m)) := by
  induction n generalizing i st with
  | zero => simp [sweep, upto]
  | succ n ih =>
    have hsplit : upto i (i + (n + 1 : ℕ)) = i :: upto (i + 1) (i + 1 + n) := by
      simp only [upto]
      rw [show (i + ((n + 1 : ℕ) : ℤ) - i).toNat = n + 1 by omega, show (i + 1 + (n : ℤ) - (i + 1)).toNat = n by omega,
        List.range_succ_eq_map]
      simp only [List.map_cons, Nat.cast_zero, add_zero, List.map_map, List.cons.injEq, true_and]
      apply List.map_congr_left
      intro a _
      simp only [Function.comp_apply, Nat.cast_succ]
      ring
    rw [sweep, hbody, ih, hsplit, List.flatMap_cons, sub_self, zero_smul, add_zero]
    simp only [Prod.mk.injEq]
    constructor
    · congr 1
      apply List.flatMap_congr
      intro j _
      congr 1
      rw [show j - i = 1 + (j - (i + 1)) by ring, add_smul, one_smul]
      abel
    · rw [show ((n + 1 : ℕ) : ℤ) = 1 + (n : ℤ) by push_cast; ring, add_smul, one_smul]
      abel

end Sweep

/-- Digits in a mixed radix. -/
theorem radix_inj {n a b a' b' : ℤ} (ha : 0 ≤ a ∧ a < n) (ha' : 0 ≤ a' ∧ a' < n) (h : a + b * n = a' + b' * n) :
    a = a' ∧ b = b' := by
  have hmod : a = a' := by
    have := congrArg (· % n) h
    simpa [Int.emod_eq_of_lt ha.1 ha.2, Int.emod_eq_of_lt ha'.1 ha'.2] using this
  subst hmod
  have hn : n ≠ 0 := by omega
  exact ⟨rfl, mul_right_cancel₀ hn (add_left_cancel h)⟩

end Strided

/-! The first and the last offset of a block, and the number of its elements. -/

namespace Strided

open IntLoop

variable {len step : ℕ → ℤ} {d : ℕ}

/-- The product of the lengths. -/
def volume (len : ℕ → ℤ) : ℕ → ℤ
  | 0 => 1
  | d + 1 => volume len d * len d

theorem volume_pos (h : ∀ j < d, 0 < len j) : 0 < volume len d := by
  induction d with
  | zero => exact one_pos
  | succ d ih => exact mul_pos (ih fun j hj => h j (hj.trans d.lt_succ_self)) (h d d.lt_succ_self)

theorem length_offsets (h : ∀ j < d, 0 < len j) : ((offsets len step d).length : ℤ) = volume len d := by
  induction d with
  | zero => rfl
  | succ d ih =>
    have hlast : 0 ≤ len d := (h d d.lt_succ_self).le
    rw [offsets_succ, List.length_flatMap, volume, ← ih fun j hj => h j (hj.trans d.lt_succ_self)]
    simp only [List.length_map, List.map_const', List.sum_replicate, length_upto, sub_zero, smul_eq_mul]
    push_cast
    rw [Int.toNat_of_nonneg hlast, mul_comm]

theorem head?_offsets (h : ∀ j < d, 0 < len j) : (offsets len step d).head? = some 0 := by
  induction d with
  | zero => rfl
  | succ d ih =>
    rw [offsets_succ, upto_cons (h d d.lt_succ_self), List.flatMap_cons, List.head?_append, List.head?_map,
      ih fun j hj => h j (hj.trans d.lt_succ_self)]
    simp

theorem getLast?_offsets (h : ∀ j < d, 0 < len j) : (offsets len step d).getLast? = some (extent len step d) := by
  induction d with
  | zero => rfl
  | succ d ih =>
    have hupto : upto 0 (len d) = upto 0 (len d - 1) ++ [len d - 1] := by
      have hlast := h d d.lt_succ_self
      have := upto_concat (show (0 : ℤ) ≤ len d - 1 by omega)
      rwa [sub_add_cancel] at this
    rw [offsets_succ, hupto, List.flatMap_append, List.flatMap_singleton, List.getLast?_append, List.getLast?_map,
      ih fun j hj => h j (hj.trans d.lt_succ_self), extent_succ]
    simp [mul_comm]

end Strided
