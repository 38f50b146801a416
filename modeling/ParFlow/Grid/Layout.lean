import ParFlow.Grid.GridDefs

/-! The search for a process layout ends when there are at most as many processes as cells; with more of them
it begins with blocks of no cells. -/

namespace ParFlow

variable {n nx ny nz numProcs m v : ℤ}

/-! ## One axis -/

/-- The number of blocks of `m` cells along an axis of `n` cells, the last one smaller if need be. -/
def blocks (n m : ℤ) : ℤ := n.tdiv m + if n.tmod m > n.tdiv m then 1 else 0

theorem one_le_blocks (hn : 1 ≤ n) (hm : 1 ≤ m) : 1 ≤ blocks n m := by
  unfold blocks
  rw [Int.tdiv_eq_ediv_of_nonneg (by omega), Int.tmod_eq_emod_of_nonneg (by omega)]
  have hquot : 0 ≤ n / m := Int.ediv_nonneg (by omega) (by omega)
  have hdiv := Int.mul_ediv_add_emod n m
  split_ifs with h
  · omega
  · -- the remainder is not greater than the quotient, so that the quotient is not zero
    by_contra hlt
    have hzero : n / m = 0 := by omega
    rw [hzero, mul_zero, zero_add] at hdiv
    omega

/-- A block of as many cells as the axis has covers it. -/
theorem blocks_of_le (hn : 1 ≤ n) (hm : n ≤ m) : blocks n m = 1 := by
  unfold blocks
  rw [Int.tdiv_eq_ediv_of_nonneg (by omega), Int.tmod_eq_emod_of_nonneg (by omega)]
  rcases hm.eq_or_lt with rfl | hlt
  · rw [Int.ediv_self (by omega), Int.emod_self, if_neg (by decide)]
    rfl
  · rw [Int.ediv_eq_zero_of_lt (by omega) hlt, Int.emod_eq_of_lt (by omega) hlt, if_pos (by omega)]
    rfl

theorem layoutFor_eq (hm : m ≠ 0) : layoutFor nx ny nz m = .ok (blocks nx m, blocks ny m, blocks nz m) := by
  simp only [layoutFor, quotient, remainder, if_neg hm, bind, Except.bind]
  rfl

/-! ## The search -/

/-- What a layout that was searched for promises. -/
structure FitsProcesses (numProcs : ℤ) (L : ℤ × ℤ × ℤ) : Prop where
  P_pos : 1 ≤ L.1
  Q_pos : 1 ≤ L.2.1
  R_pos : 1 ≤ L.2.2
  le_numProcs : L.1 * L.2.1 * L.2.2 ≤ numProcs

/-- The blocks grow until they cover every axis. -/
theorem layoutLoop_spec (hx : 1 ≤ nx) (hy : 1 ≤ ny) (hz : 1 ≤ nz) (hprocs : 1 ≤ numProcs) (hm : 1 ≤ m) :
    ∃ L, FitsProcesses numProcs L ∧
      ∀ fuel : ℕ, max nx (max ny nz) < m + fuel → 1 ≤ fuel → layoutLoop nx ny nz numProcs fuel m = .ok L := by
  obtain ⟨k, hk⟩ : ∃ k : ℕ, max nx (max ny nz) ≤ m + k := ⟨(max nx (max ny nz)).toNat, by omega⟩
  induction k generalizing m with
  | zero =>
    have hbound : nx ≤ m ∧ ny ≤ m ∧ nz ≤ m := by omega
    have hone : layoutFor nx ny nz m = .ok (1, 1, 1) := by
      rw [layoutFor_eq (by omega), blocks_of_le hx hbound.1, blocks_of_le hy hbound.2.1, blocks_of_le hz hbound.2.2]
    refine ⟨(1, 1, 1), ⟨le_rfl, le_rfl, le_rfl, hprocs⟩, ?_⟩
    intro fuel _ hpos
    obtain ⟨fuel, rfl⟩ := Nat.exists_eq_add_of_le' hpos
    simp only [layoutLoop, hone, bind, Except.bind, mul_one]
    rw [if_neg (by omega)]
  | succ k ih =>
    by_cases hfit : blocks nx m * blocks ny m * blocks nz m > numProcs
    · obtain ⟨L, hL, hrun⟩ := ih (m := m + 1) (by omega) (by push_cast at hk; omega)
      -- one block along each axis would fit
      have hmore : m < max nx (max ny nz) := by
        by_contra hle
        have hbound : nx ≤ m ∧ ny ≤ m ∧ nz ≤ m := by omega
        rw [blocks_of_le hx hbound.1, blocks_of_le hy hbound.2.1, blocks_of_le hz hbound.2.2] at hfit
        omega
      refine ⟨L, hL, ?_⟩
      intro fuel hf hpos
      obtain ⟨fuel, rfl⟩ := Nat.exists_eq_add_of_le' hpos
      have hnext := hrun fuel (by push_cast at hf; omega) (by push_cast at hf; omega)
      simp only [layoutLoop, layoutFor_eq (show m ≠ 0 by omega), bind, Except.bind, if_pos hfit, hnext]
    · refine ⟨(blocks nx m, blocks ny m, blocks nz m),
        ⟨one_le_blocks hx hm, one_le_blocks hy hm, one_le_blocks hz hm, not_lt.mp hfit⟩, ?_⟩
      intro fuel _ hpos
      obtain ⟨fuel, rfl⟩ := Nat.exists_eq_add_of_le' hpos
      simp only [layoutLoop, layoutFor_eq (show m ≠ 0 by omega), bind, Except.bind, if_neg hfit]

theorem layoutLoop_zero (nx ny nz numProcs : ℤ) (fuel : ℕ) :
    layoutLoop nx ny nz numProcs (fuel + 1) 0 = .error .divideByZero := rfl

theorem one_le_cubeRoot (hv : 1 ≤ v) : 1 ≤ cubeRoot v := by
  unfold cubeRoot
  have hroot : 1 ≤ Nat.nthRoot 3 v.toNat := by
    rw [Nat.le_nthRoot_iff (by decide)]
    omega
  exact_mod_cast hroot

end ParFlow
