import ParFlow.Lib.IntLoop

/-! Loops that are unrolled: a clean-up loop for the remainder and then a loop over blocks. -/

namespace IntLoop

variable {σ : Type*} {s : ℤ}

theorem uptoBy_mul (hs : 0 < s) (lo : ℤ) (q : ℕ) :
    uptoBy lo (lo + s * q) s = (List.range q).map fun n : ℕ => lo + s * (n : ℤ) := by
  have hcount : (lo + s * q - lo + (s - 1)) / s = q := by
    rw [add_sub_cancel_left, add_comm, Int.add_mul_ediv_left _ _ hs.ne', Int.ediv_eq_zero_of_lt (by omega) (by omega),
      zero_add]
  unfold uptoBy
  rw [hcount, Int.toNat_natCast]

/-- A loop over blocks is the loop over what is in them. -/
theorem foldl_uptoBy (hs : 0 < s) (f : σ → ℤ → σ) (lo : ℤ) (q : ℕ) (acc : σ) :
    (uptoBy lo (lo + s * q) s).foldl (fun acc i => (upto i (i + s)).foldl f acc) acc =
      (upto lo (lo + s * q)).foldl f acc := by
  rw [uptoBy_mul hs]
  induction q with
  | zero => simp [upto]
  | succ q ih =>
    have hpos : 0 ≤ s * (q : ℤ) := by positivity
    rw [List.range_succ, List.map_append, List.foldl_append, ih, Nat.cast_succ, mul_add, mul_one, ← add_assoc,
      ← upto_append (a := lo) (b := lo + s * q) (c := lo + s * q + s) (by omega) (by omega), List.foldl_append]
    rfl

/-- The remainder first, then the blocks. -/
theorem foldl_remainder_blocks (hs : 0 < s) (f : σ → ℤ → σ) {n : ℤ} (hn : 0 ≤ n) (acc : σ) :
    (uptoBy (n % s + 1) (n + 1) s).foldl (fun acc i => (upto i (i + s)).foldl f acc) ((upto 1 (n % s + 1)).foldl f acc) =
      (upto 1 (n + 1)).foldl f acc := by
  have hmod := Int.emod_nonneg n hs.ne'
  obtain ⟨q, hq⟩ := Int.eq_ofNat_of_zero_le (Int.ediv_nonneg hn hs.le)
  have hsplit : n + 1 = n % s + 1 + s * (q : ℤ) := by
    have := Int.emod_add_mul_ediv n s
    rw [hq] at this
    omega
  have hpos : 0 ≤ s * (q : ℤ) := by positivity
  rw [hsplit, foldl_uptoBy hs, ← upto_append (a := 1) (b := n % s + 1) (c := n % s + 1 + s * q) (by omega) (by omega),
    List.foldl_append]

/-- The loop as it is written out: no clean-up without a remainder, and no blocks if there are fewer rounds than in one. -/
theorem foldl_unrolled (hs : 0 < s) (f block : σ → ℤ → σ)
    (hblock : ∀ acc i, (upto i (i + s)).foldl f acc = block acc i) {n : ℤ} (hn : 0 ≤ n) (acc : σ) :
    (if n % s ≠ 0 ∧ n < s then if n % s = 0 then acc else (upto 1 (n % s + 1)).foldl f acc
      else (uptoBy (n % s + 1) (n + 1) s).foldl block (if n % s = 0 then acc else (upto 1 (n % s + 1)).foldl f acc)) =
        (upto 1 (n + 1)).foldl f acc := by
  have hclean : (if n % s = 0 then acc else (upto 1 (n % s + 1)).foldl f acc) = (upto 1 (n % s + 1)).foldl f acc := by
    split_ifs with h
    · rw [h, upto_eq_nil (by omega)]
      rfl
    · rfl
  have hblocks : (fun acc i => (upto i (i + s)).foldl f acc) = block := funext₂ hblock
  rw [hclean, ← foldl_remainder_blocks hs f hn, hblocks]
  split_ifs with hsmall
  · -- the remainder is all there is
    have hnone : uptoBy (n + 1) (n + 1) s = [] := by simpa using uptoBy_mul hs (n + 1) 0
    rw [Int.emod_eq_of_lt hn hsmall.2, hnone]
    rfl
  · rfl

theorem foldl_add_eq_sum {M : Type*} [AddCommMonoid M] (f : ℤ → M) (lo hi : ℤ) (acc : M) :
    (upto lo hi).foldl (fun acc i => acc + f i) acc = acc + ∑ i ∈ Finset.Ico lo hi, f i := by
  have hsum : ∑ i ∈ Finset.Ico lo hi, f i = ((upto lo hi).map f).sum := by
    rw [← List.sum_toFinset _ (upto_nodup lo hi)]
    refine Finset.sum_congr ?_ fun _ _ => rfl
    ext i
    simp
  rw [hsum]
  induction upto lo hi generalizing acc with
  | nil => simp
  | cons i l ih => rw [List.foldl_cons, ih, List.map_cons, List.sum_cons, add_assoc]

end IntLoop
