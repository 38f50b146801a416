import ParFlow.Lib.CholeskyFactor
import ParFlow.Lib.ExceptLoop
import ParFlow.Lib.PointLoop
import ParFlow.Lib.Unrolled
import ParFlow.Solver.LinpackDefs

/-! `dpofa_` factors a symmetric matrix if it is positive definite and reports the first leading minor that is not, and
`dposl_` solves with the factors. -/

namespace ParFlow.Linpack

open IntLoop PointLoop

section General

variable {K : Type} [Field K] [LinearOrder K]

/-! ## The unrolled loops -/

omit [LinearOrder K] in
theorem ddot_unit (n : ℤ) (dx dy : ℤ → K) :
    ddot n dx 1 dy 1 = ∑ i ∈ Finset.Ico 1 (n + 1), dx (i - 1) * dy (i - 1) := by
  rcases le_or_gt n 0 with hn | hn
  · rw [Finset.Ico_eq_empty (by omega), Finset.sum_empty]
    exact if_pos hn
  set f := fun (dtemp : K) i => dtemp + dx (i - 1) * dy (i - 1) with hf
  have hblock : ∀ (dtemp : K) i, (upto i (i + 5)).foldl f dtemp =
      dtemp + dx (i - 1) * dy (i - 1) + dx (i + 1 - 1) * dy (i + 1 - 1) + dx (i + 2 - 1) * dy (i + 2 - 1) +
        dx (i + 3 - 1) * dy (i + 3 - 1) + dx (i + 4 - 1) * dy (i + 4 - 1) := by
    intro dtemp i
    simp [upto, List.range_succ, hf]
  have hrun : ddot n dx 1 dy 1 = (upto 1 (n + 1)).foldl f 0 := by
    rw [← foldl_unrolled (s := 5) (by decide) f _ hblock hn.le]
    exact (if_neg (not_le.mpr hn)).trans (if_pos ⟨rfl, rfl⟩)
  rw [hrun, hf, foldl_add_eq_sum, zero_add]

theorem daxpy_unit (n : ℤ) (da : K) (dx dy : ℤ → K) (q : ℤ) :
    daxpy n da dx 1 dy 1 q = if 0 ≤ q ∧ q < n then dy q + da * dx q else dy q := by
  set f := fun (dy : ℤ → K) i => Function.update dy (i - 1) (dy (i - 1) + da * dx (i - 1)) with hf
  have hget : (upto 1 (n + 1)).foldl f dy q = if 0 ≤ q ∧ q < n then dy q + da * dx q else dy q := by
    split_ifs with hq
    · have hmem : q + 1 ∈ upto 1 (n + 1) := mem_upto.mpr (by omega)
      have hinj : Function.Injective fun i : ℤ => i - 1 := sub_left_injective
      have hlast : (upto 1 (n + 1)).foldl f dy (q + 1 - 1) = dy (q + 1 - 1) + da * dx (q + 1 - 1) :=
        foldl_update_of_mem ((upto_nodup 1 (n + 1)).map hinj) (fun i _ d d' h => by rw [h (i - 1) (Or.inl rfl)]) hmem dy
      rwa [add_sub_cancel_right] at hlast
    · refine upto_get_of_ne (fun i => i - 1) (fun i dy => dy (i - 1) + da * dx (i - 1)) 1 (n + 1) dy fun i hi h => ?_
      exact hq (by omega)
  rcases le_or_gt n 0 with hn | hn
  · rw [if_neg (by omega)]
    exact congrFun (if_pos hn) q
  rcases eq_or_ne da 0 with rfl | hda
  · rw [zero_mul, add_zero, ite_self]
    exact congrFun ((if_neg (not_le.mpr hn)).trans (if_pos rfl)) q
  have hblock : ∀ (dy : ℤ → K) i, (upto i (i + 4)).foldl f dy = f (f (f (f dy i) (i + 1)) (i + 2)) (i + 3) := by
    intro dy i
    simp [upto, List.range_succ]
  have hrun : daxpy n da dx 1 dy 1 = (upto 1 (n + 1)).foldl f dy := by
    rw [← foldl_unrolled (s := 4) (by decide) f _ hblock hn.le]
    exact ((if_neg (not_le.mpr hn)).trans (if_neg hda)).trans (if_pos ⟨rfl, rfl⟩)
  rw [hrun, hget]

/-! ## Addresses -/

variable {lda : ℤ} {a : ℤ → K}

/-- The entries of a column do not reach into the next one. -/
theorem addr_inj {k j k' j' : ℤ} (hk : 1 ≤ k ∧ k ≤ lda) (hk' : 1 ≤ k' ∧ k' ≤ lda) (h : addr lda k j = addr lda k' j') :
    k = k' ∧ j = j' := by
  unfold addr at h
  have hmul : (j - j') * lda = k' - k := by linarith
  have hj : j = j' := by
    rcases lt_trichotomy (j - j') 0 with hlt | heq | hgt
    · nlinarith
    · omega
    · nlinarith
  refine ⟨?_, hj⟩
  rw [hj] at h
  linarith

theorem addr_ne {k j k' j' : ℤ} (hk : 1 ≤ k ∧ k ≤ lda) (hk' : 1 ≤ k' ∧ k' ≤ lda) (hne : k ≠ k' ∨ j ≠ j') :
    addr lda k j ≠ addr lda k' j' := fun h => by
  have := addr_inj hk hk' h
  omega

omit [Field K] [LinearOrder K] in
theorem column_eq (a : ℤ → K) (lda j i : ℤ) : column a lda j (i - 1) = a (addr lda i j) := by
  unfold column addr
  congr 1
  ring

/-! ## One column of the factor -/

omit [LinearOrder K] in
/-- The dot product of a round, by the entries. -/
theorem ddot_columns (a : ℤ → K) (lda k j : ℤ) : ddot (k - 1) (column a lda k) 1 (column a lda j) 1 =
    ∑ i ∈ Finset.Ico 1 k, a (addr lda i k) * a (addr lda i j) := by
  rw [ddot_unit, sub_add_cancel]
  exact Finset.sum_congr rfl fun i _ => by rw [column_eq, column_eq]

omit [LinearOrder K] in
theorem sum_Ico_succ (f : ℤ → K) {k : ℤ} (hk : 1 ≤ k) :
    ∑ i ∈ Finset.Ico 1 (k + 1), f i = ∑ i ∈ Finset.Ico 1 k, f i + f k := by
  rw [← Finset.insert_Ico_right_eq_Ico_add_one hk, Finset.sum_insert (by simp), add_comm]

/-- After `m` rounds on column `j`: the entries so far solve the equations of the factor, the sum is that of their squares,
and all else is as it was. -/
structure ColumnInv (a : ℤ → K) (lda j : ℤ) (m : ℤ) (st : (ℤ → K) × K) : Prop where
  solved : ∀ i, 1 ≤ i → i ≤ m → ∑ k ∈ Finset.Ico 1 (i + 1), st.1 (addr lda k i) * st.1 (addr lda k j) = a (addr lda i j)
  squares : st.2 = ∑ k ∈ Finset.Ico 1 (m + 1), st.1 (addr lda k j) * st.1 (addr lda k j)
  rest : ∀ q, (∀ k, 1 ≤ k → k ≤ m → q ≠ addr lda k j) → st.1 q = a q

theorem dpofaColumn_run {j : ℤ} (hj : j ≤ lda) (hdiag : ∀ k, 1 ≤ k → k < j → a (addr lda k k) ≠ 0) (m : ℕ)
    (hm : (m : ℤ) < j) :
    ColumnInv a lda j m ((upto 1 (m + 1)).foldl (dpofaRound lda j) (a, 0)) := by
  induction m with
  | zero => exact ⟨fun i h1 h2 => by omega, by simp [upto], fun _ _ => by simp [upto]⟩
  | succ m ih =>
    have ih := ih (by omega)
    rw [Nat.cast_succ, upto_concat (by omega), List.foldl_append, List.foldl_cons, List.foldl_nil]
    set st := (upto 1 ((m : ℤ) + 1)).foldl (dpofaRound lda j) (a, (0 : K))
    set k : ℤ := (m : ℤ) + 1 with hk
    set t := (st.1 (addr lda k j) - ddot (k - 1) (column st.1 lda k) 1 (column st.1 lda j) 1) / st.1 (addr lda k k) with ht
    -- row k of column j is the only entry that the round writes
    have hget : ∀ i l, 1 ≤ i → i ≤ lda → (i ≠ k ∨ l ≠ j) →
        Function.update st.1 (addr lda k j) t (addr lda i l) = st.1 (addr lda i l) := fun i l h1 h2 hor =>
      Function.update_of_ne (addr_ne ⟨h1, h2⟩ ⟨by omega, by omega⟩ hor) _ _
    have hself : Function.update st.1 (addr lda k j) t (addr lda k j) = t := Function.update_self _ _ _
    have hdiag' : st.1 (addr lda k k) ≠ 0 := by
      rw [ih.rest _ fun i h1 h2 => addr_ne ⟨by omega, by omega⟩ ⟨h1, by omega⟩ (by omega)]
      exact hdiag k (by omega) (by omega)
    have hold : st.1 (addr lda k j) = a (addr lda k j) :=
      ih.rest _ fun i h1 h2 => addr_ne ⟨by omega, by omega⟩ ⟨h1, by omega⟩ (by omega)
    refine ⟨fun i h1 h2 => ?_, ?_, fun q hq => ?_⟩
    · show ∑ x ∈ Finset.Ico 1 (i + 1), Function.update st.1 (addr lda k j) t (addr lda x i) *
        Function.update st.1 (addr lda k j) t (addr lda x j) = _
      have hsame : ∀ x, 1 ≤ x → x < k → Function.update st.1 (addr lda k j) t (addr lda x i) *
          Function.update st.1 (addr lda k j) t (addr lda x j) = st.1 (addr lda x i) * st.1 (addr lda x j) := by
        intro x h3 h4
        rw [hget x i h3 (by omega) (by omega), hget x j h3 (by omega) (by omega)]
      rcases eq_or_ne i k with rfl | hik
      · -- the new entry
        rw [sum_Ico_succ _ h1, hself, hget k k (by omega) (by omega) (by omega), Finset.sum_congr rfl fun x hx =>
          hsame x (Finset.mem_Ico.mp hx).1 (Finset.mem_Ico.mp hx).2, ht, ddot_columns, mul_div_cancel₀ _ hdiag', hold]
        ring
      · rw [Finset.sum_congr rfl fun x hx => hsame x (Finset.mem_Ico.mp hx).1 (by have := (Finset.mem_Ico.mp hx).2; omega)]
        exact ih.solved i h1 (by omega)
    · show st.2 + t * t = ∑ x ∈ Finset.Ico 1 (k + 1), Function.update st.1 (addr lda k j) t (addr lda x j) *
        Function.update st.1 (addr lda k j) t (addr lda x j)
      rw [sum_Ico_succ _ (by omega), hself, ih.squares]
      congr 1
      refine Finset.sum_congr rfl fun x hx => ?_
      have hx := Finset.mem_Ico.mp hx
      rw [hget x j hx.1 (by omega) (by omega)]
    · show Function.update st.1 (addr lda k j) t q = a q
      rw [Function.update_of_ne (hq k (by omega) le_rfl)]
      exact ih.rest q fun i h1 h2 => hq i h1 (by omega)

theorem dpofaColumn_spec {j : ℤ} (h1 : 1 ≤ j) (hj : j ≤ lda) (hdiag : ∀ k, 1 ≤ k → k < j → a (addr lda k k) ≠ 0) :
    ColumnInv a lda j (j - 1) (dpofaColumn lda j a) := by
  have := dpofaColumn_run hj hdiag (j - 1).toNat (by omega)
  rwa [Int.toNat_of_nonneg (by omega)] at this

/-! ## Two triangular systems -/

/-- The right hand sides of the rows so far are those of the solution so far. -/
structure ForwardInv (a : ℤ → K) (lda : ℤ) (b₀ : ℤ → K) (m : ℤ) (b : ℤ → K) : Prop where
  solved : ∀ k : ℤ, 1 ≤ k → k ≤ m → ∑ i ∈ Finset.Ico 1 (k + 1), a (addr lda i k) * b (i - 1) = b₀ (k - 1)
  rest : ∀ q, ¬ (0 ≤ q ∧ q < m) → b q = b₀ q

theorem forward_run (b₀ : ℤ → K) (m : ℕ) (hdiag : ∀ k : ℤ, 1 ≤ k → k ≤ m → a (addr lda k k) ≠ 0) :
    ForwardInv a lda b₀ m ((upto 1 ((m : ℤ) + 1)).foldl (forwardStep a lda) b₀) := by
  induction m with
  | zero => exact ⟨fun i h1 h2 => by omega, fun _ _ => by simp [upto]⟩
  | succ m ih =>
    have ih := ih fun k h1 h2 => hdiag k h1 (by omega)
    rw [Nat.cast_succ, upto_concat (by omega), List.foldl_append, List.foldl_cons, List.foldl_nil]
    set b := (upto 1 ((m : ℤ) + 1)).foldl (forwardStep a lda) b₀
    set k : ℤ := (m : ℤ) + 1 with hk
    have hself : forwardStep a lda b k (k - 1) = (b (k - 1) - ∑ i ∈ Finset.Ico 1 k, a (addr lda i k) * b (i - 1)) /
        a (addr lda k k) := by
      unfold forwardStep
      rw [Function.update_self, ddot_unit, sub_add_cancel]
      simp only [column_eq]
    have hother : ∀ q, q ≠ k - 1 → forwardStep a lda b k q = b q := fun q hq => Function.update_of_ne hq _ _
    refine ⟨fun i h1 h2 => ?_, fun q hq => ?_⟩
    · have hsame : ∀ l, l ≤ k → ∀ x ∈ Finset.Ico 1 l, a (addr lda x i) * forwardStep a lda b k (x - 1) =
          a (addr lda x i) * b (x - 1) := fun l hl x hx => by
        have := (Finset.mem_Ico.mp hx).2
        rw [hother (x - 1) (by omega)]
      rcases eq_or_ne i k with rfl | hik
      · rw [sum_Ico_succ _ h1, hself, Finset.sum_congr rfl (hsame k le_rfl), mul_div_cancel₀ _ (hdiag k h1 (by omega)),
          ih.rest (k - 1) (by omega)]
        ring
      · rw [Finset.sum_congr rfl (hsame (i + 1) (by omega))]
        exact ih.solved i h1 (by omega)
    · rw [hother q (by omega)]
      exact ih.rest q (by omega)

/-- The rows from `k` on are solved, and the right hand sides of the rows before lack the terms of what is solved. -/
structure BackwardInv (a : ℤ → K) (lda n : ℤ) (y : ℤ → K) (k : ℤ) (b : ℤ → K) : Prop where
  solved : ∀ i, k ≤ i → i ≤ n → ∑ l ∈ Finset.Ico i (n + 1), a (addr lda i l) * b (l - 1) = y (i - 1)
  before : ∀ i, 1 ≤ i → i < k → b (i - 1) + ∑ l ∈ Finset.Ico k (n + 1), a (addr lda i l) * b (l - 1) = y (i - 1)
  rest : ∀ q, ¬ (0 ≤ q ∧ q < n) → b q = y q

omit [LinearOrder K] in
theorem sum_Ico_cons (f : ℤ → K) {k n : ℤ} (hk : k ≤ n) :
    ∑ l ∈ Finset.Ico k (n + 1), f l = f k + ∑ l ∈ Finset.Ico (k + 1) (n + 1), f l := by
  rw [← Finset.insert_Ico_add_one_left_eq_Ico (by omega : k < n + 1), Finset.sum_insert (by simp)]

theorem backward_run {n : ℤ} (y : ℤ → K) (hdiag : ∀ k, 1 ≤ k → k ≤ n → a (addr lda k k) ≠ 0) (m : ℕ) (hm : (m : ℤ) ≤ n) :
    BackwardInv a lda n y (n + 1 - m) ((upto 1 ((m : ℤ) + 1)).foldl (backwardStep a lda n) y) := by
  induction m with
  | zero =>
    refine ⟨fun i h1 h2 => by omega, fun i _ _ => ?_, fun _ _ => by simp [upto]⟩
    simp [upto]
  | succ m ih =>
    have ih := ih (by omega)
    rw [Nat.cast_succ, upto_concat (by omega), List.foldl_append, List.foldl_cons, List.foldl_nil]
    set b := (upto 1 ((m : ℤ) + 1)).foldl (backwardStep a lda n) y
    set k : ℤ := n - m with hk
    rw [show n + 1 - ((m : ℤ) + 1) = k by omega]
    rw [show n + 1 - (m : ℤ) = k + 1 by omega] at ih
    -- the round writes the entry of its own row and takes its column out of the rows before
    have hstep : ∀ q, backwardStep a lda n b ((m : ℤ) + 1) q =
        if 0 ≤ q ∧ q < k - 1 then b q - b (k - 1) / a (addr lda k k) * a (addr lda (q + 1) k)
        else if q = k - 1 then b (k - 1) / a (addr lda k k) else b q := by
      intro q
      unfold backwardStep
      rw [show n + 1 - ((m : ℤ) + 1) = k by omega, daxpy_unit, Function.update_self]
      have hcol : column a lda k q = a (addr lda (q + 1) k) := by rw [← column_eq a, add_sub_cancel_right]
      split_ifs with hq hq'
      · rw [Function.update_of_ne (by omega), hcol]
        ring
      · rw [hq', Function.update_self]
      · rw [Function.update_of_ne hq']
    have hself : backwardStep a lda n b ((m : ℤ) + 1) (k - 1) = b (k - 1) / a (addr lda k k) := by
      rw [hstep, if_neg (by omega), if_pos rfl]
    have hlater : ∀ i, ∀ l ∈ Finset.Ico (k + 1) (n + 1), a (addr lda i l) * backwardStep a lda n b ((m : ℤ) + 1) (l - 1) =
        a (addr lda i l) * b (l - 1) := fun i l hl => by
      have hl := (Finset.mem_Ico.mp hl).1
      rw [hstep, if_neg (by omega), if_neg (by omega)]
    refine ⟨fun i h1 h2 => ?_, fun i h1 h2 => ?_, fun q hq => ?_⟩
    · rcases eq_or_ne i k with rfl | hik
      · rw [sum_Ico_cons _ h2, hself, Finset.sum_congr rfl (hlater k), mul_div_cancel₀ _ (hdiag k (by omega) h2)]
        exact ih.before k (by omega) (by omega)
      · rw [Finset.sum_congr rfl fun l hl => hlater i l (Finset.mem_Ico.mpr (by have := Finset.mem_Ico.mp hl; omega))]
        exact ih.solved i (by omega) h2
    · rw [sum_Ico_cons _ (by omega), hself, Finset.sum_congr rfl (hlater i), hstep, if_pos (by omega), sub_add_cancel,
        ← ih.before i h1 (by omega)]
      ring
    · rw [hstep, if_neg (by omega), if_neg (by omega)]
      exact ih.rest q hq

end General

/-! ## The factor of a matrix -/

section Real

open CholeskyFactor Matrix

variable {a₀ r : ℤ → ℝ} {lda n j : ℤ} {st : (ℤ → ℝ) × ℝ}

/-- The array as a matrix with indices that count from 1. -/
def entries (a : ℤ → ℝ) (lda k l : ℤ) : ℝ := a (addr lda k l)

/-- The columns before `j` are those of the factor, and all else is as it was. -/
structure FactorInv (a₀ : ℤ → ℝ) (lda j : ℤ) (r : ℤ → ℝ) : Prop where
  pos : ∀ k, 1 ≤ k → k < j → 0 < r (addr lda k k)
  factor : ∀ i l, 1 ≤ i → i ≤ l → l < j →
    ∑ k ∈ Finset.Ico 1 (i + 1), r (addr lda k i) * r (addr lda k l) = a₀ (addr lda i l)
  rest : ∀ q, (∀ k l, 1 ≤ k → k ≤ l → l < j → q ≠ addr lda k l) → r q = a₀ q

/-- The same once the entries of column `j` above the diagonal are found, with the sum of their squares. -/
structure PivotInv (a₀ : ℤ → ℝ) (lda j : ℤ) (st : (ℤ → ℝ) × ℝ) : Prop where
  pos : ∀ k, 1 ≤ k → k < j → 0 < st.1 (addr lda k k)
  factor : ∀ i l, 1 ≤ i → i < j → i ≤ l → l ≤ j →
    ∑ k ∈ Finset.Ico 1 (i + 1), st.1 (addr lda k i) * st.1 (addr lda k l) = a₀ (addr lda i l)
  squares : st.2 = ∑ k ∈ Finset.Ico 1 j, st.1 (addr lda k j) * st.1 (addr lda k j)
  pivot : st.1 (addr lda j j) = a₀ (addr lda j j)
  rest : ∀ q, (∀ k l, 1 ≤ k → k ≤ l → l ≤ j → q ≠ addr lda k l) → st.1 q = a₀ q

theorem factorInv_start (hj : j ≤ 1) : FactorInv a₀ lda j a₀ :=
  ⟨fun k h1 h2 => by omega, fun i l h1 h2 h3 => by omega, fun _ _ => rfl⟩

theorem FactorInv.column (h : FactorInv a₀ lda j r) (h1 : 1 ≤ j) (hj : j ≤ lda) :
    PivotInv a₀ lda j (dpofaColumn lda j r) := by
  have hcol := dpofaColumn_spec h1 hj fun k hk hkj => (h.pos k hk hkj).ne'
  have hkept : ∀ i l, 1 ≤ i → i ≤ l → (i = j ∨ l < j) → l ≤ j → (dpofaColumn lda j r).1 (addr lda i l) = r (addr lda i l) :=
    fun i l hi hil hor hlj => hcol.rest _ fun k hk hkj => addr_ne ⟨hi, by omega⟩ ⟨hk, by omega⟩ (by omega)
  have hold : ∀ i, 1 ≤ i → i ≤ j → r (addr lda i j) = a₀ (addr lda i j) :=
    fun i hi hij => h.rest _ fun k l hk hkl hlj => addr_ne ⟨hi, by omega⟩ ⟨hk, by omega⟩ (by omega)
  refine ⟨fun k hk hkj => ?_, fun i l hi hij hil hlj => ?_, ?_, ?_, fun q hq => ?_⟩
  · rw [hkept k k hk le_rfl (Or.inr hkj) hkj.le]
    exact h.pos k hk hkj
  · rcases eq_or_ne l j with rfl | hne
    · rw [hcol.solved i hi (by omega), hold i hi hil]
    · rw [← h.factor i l hi hil (by omega)]
      refine Finset.sum_congr rfl fun k hk => ?_
      have hk := Finset.mem_Ico.mp hk
      rw [hkept k i hk.1 (by omega) (by omega) (by omega), hkept k l hk.1 (by omega) (by omega) hlj]
  · rw [hcol.squares, sub_add_cancel]
  · rw [hkept j j h1 le_rfl (Or.inl rfl) le_rfl, hold j h1 le_rfl]
  · rw [hcol.rest q fun k hk hkj => hq k j hk (by omega) le_rfl]
    exact h.rest q fun k l hk hkl hlj => hq k l hk hkl hlj.le

theorem PivotInv.next (h : PivotInv a₀ lda j st) (h1 : 1 ≤ j) (hj : j ≤ lda) (hs : 0 < st.1 (addr lda j j) - st.2) :
    FactorInv a₀ lda (j + 1) (Function.update st.1 (addr lda j j) √(st.1 (addr lda j j) - st.2)) := by
  set s := st.1 (addr lda j j) - st.2 with hdef
  have hkept : ∀ i l, 1 ≤ i → i < j → Function.update st.1 (addr lda j j) √s (addr lda i l) = st.1 (addr lda i l) :=
    fun i l hi hij => Function.update_of_ne (addr_ne ⟨hi, by omega⟩ ⟨h1, hj⟩ (by omega)) _ _
  have hself : Function.update st.1 (addr lda j j) √s (addr lda j j) = √s := Function.update_self _ _ _
  refine ⟨fun k hk hkj => ?_, fun i l hi hil hlj => ?_, fun q hq => ?_⟩
  · rcases eq_or_ne k j with rfl | hne
    · rw [hself]
      exact Real.sqrt_pos.mpr hs
    · rw [hkept k k hk (by omega)]
      exact h.pos k hk (by omega)
  · have hsame : ∀ x, x ≤ j → ∀ k ∈ Finset.Ico 1 x, Function.update st.1 (addr lda j j) √s (addr lda k i) *
        Function.update st.1 (addr lda j j) √s (addr lda k l) = st.1 (addr lda k i) * st.1 (addr lda k l) := by
      intro x hx k hk
      have hk := Finset.mem_Ico.mp hk
      rw [hkept k i hk.1 (by omega), hkept k l hk.1 (by omega)]
    rcases eq_or_ne i j with rfl | hne
    · obtain rfl : l = i := by omega
      -- the diagonal: the squares above it are those that were taken off
      rw [sum_Ico_succ _ h1, hself, Real.mul_self_sqrt hs.le, Finset.sum_congr rfl (hsame l le_rfl), ← h.squares, hdef,
        h.pivot]
      ring
    · rw [Finset.sum_congr rfl (hsame (i + 1) (by omega))]
      exact h.factor i l hi (by omega) hil (by omega)
  · rw [Function.update_of_ne (hq j j h1 le_rfl (by omega))]
    exact h.rest q fun k l hk hkl hlj => hq k l hk hkl (by omega)

theorem FactorInv.factors (h : FactorInv a₀ lda j r) {m : ℕ} (hm : (m : ℤ) < j) :
    Factors (entries a₀ lda) (entries r lda) (fun _ => 1) m := fun i l hi hil hlm => by
  simp only [one_mul]
  exact h.factor i l hi hil (by omega)

theorem FactorInv.posDef (h : FactorInv a₀ lda j r) {m : ℕ} (hm : (m : ℤ) < j) : (symm (entries a₀ lda) m).PosDef :=
  ((h.factors hm).posDef_iff fun k hk hkm => (h.pos k hk (by omega)).ne').mpr fun _ _ _ => one_pos

/-- The minor of order `j` is positive definite if the pivot is positive, and only then. -/
theorem PivotInv.posDef_iff (h : PivotInv a₀ lda j st) (h1 : 1 ≤ j) {m : ℕ} (hm : (m : ℤ) = j) :
    (symm (entries a₀ lda) m).PosDef ↔ 0 < st.1 (addr lda j j) - st.2 := by
  -- the pivot is the weight of the last row, which has 1 on the diagonal
  have hfac : Factors (entries a₀ lda) (fun k l => if k = j then 1 else entries st.1 lda k l)
      (fun k => if k = j then st.1 (addr lda j j) - st.2 else 1) m := by
    intro i l hi hil hlm
    have hbefore : ∀ x, x ≤ j → ∀ k ∈ Finset.Ico 1 x, (if k = j then 1 else entries st.1 lda k i) *
        ((if k = j then st.1 (addr lda j j) - st.2 else 1) * (if k = j then 1 else entries st.1 lda k l)) =
          st.1 (addr lda k i) * st.1 (addr lda k l) := by
      intro x hx k hk
      have hkj : k ≠ j := ((Finset.mem_Ico.mp hk).2.trans_le hx).ne
      rw [if_neg hkj, if_neg hkj, if_neg hkj, one_mul, entries, entries]
    rcases eq_or_ne i j with rfl | hne
    · obtain rfl : l = i := by omega
      rw [sum_Ico_succ _ h1, Finset.sum_congr rfl (hbefore l le_rfl), ← h.squares]
      simp only [if_true, one_mul, mul_one]
      rw [entries, ← h.pivot]
      ring
    · rw [Finset.sum_congr rfl (hbefore (i + 1) (by omega))]
      exact h.factor i l hi (by omega) hil (by omega)
  rw [hfac.posDef_iff]
  · constructor
    · intro hd
      simpa only [if_true] using hd j h1 hm.ge
    · intro hs i _ _
      split_ifs
      · exact hs
      · exact one_pos
  · intro i hi him
    show (if i = j then (1 : ℝ) else entries st.1 lda i i) ≠ 0
    split_ifs with hij
    · exact one_ne_zero
    · exact (h.pos i hi (by omega)).ne'

/-- What is returned when the pivot of a column is not positive. -/
structure Breakdown (a₀ : ℤ → ℝ) (lda n : ℤ) (e : (ℤ → ℝ) × ℤ) : Prop where
  first : 1 ≤ e.2
  last : e.2 ≤ n
  before : (symm (entries a₀ lda) (e.2 - 1).toNat).PosDef
  minor : ¬ (symm (entries a₀ lda) e.2.toNat).PosDef
  rest : ∀ q, (∀ k l, 1 ≤ k → k ≤ l → l ≤ n → q ≠ addr lda k l) → e.1 q = a₀ q

theorem dpofaStep_spec (h : FactorInv a₀ lda j r) (h1 : 1 ≤ j) (hjn : j ≤ n) (hn : n ≤ lda) :
    (∃ r', dpofaStep Real.sqrt lda r j = .ok r' ∧ FactorInv a₀ lda (j + 1) r') ∨
      ∃ e, dpofaStep Real.sqrt lda r j = .error e ∧ Breakdown a₀ lda n e := by
  have hpivot := h.column h1 (hjn.trans hn)
  rcases lt_or_ge 0 ((dpofaColumn lda j r).1 (addr lda j j) - (dpofaColumn lda j r).2) with hs | hs
  · exact Or.inl ⟨_, if_neg (not_le.mpr hs), hpivot.next h1 (hjn.trans hn) hs⟩
  · refine Or.inr ⟨_, if_pos hs, h1, hjn, ?_, ?_, ?_⟩
    · show (symm (entries a₀ lda) (j - 1).toNat).PosDef
      exact h.posDef (by omega)
    · show ¬ (symm (entries a₀ lda) j.toNat).PosDef
      rw [hpivot.posDef_iff h1 (by omega)]
      exact not_lt.mpr hs
    · exact fun q hq => hpivot.rest q fun k l hk hkl hlj => hq k l hk hkl (hlj.trans hjn)

theorem dpofa_run (a₀ : ℤ → ℝ) (hn : n ≤ lda) :
    (∃ r, dpofa Real.sqrt a₀ lda n = (r, 0) ∧ FactorInv a₀ lda (n.toNat + 1) r) ∨
      Breakdown a₀ lda n (dpofa Real.sqrt a₀ lda n) := by
  unfold dpofa
  rcases le_or_gt 1 (n + 1) with h1 | h1
  · rw [Int.toNat_of_nonneg (by omega)]
    rcases ExceptLoop.foldlM_upto_or (FactorInv a₀ lda) h1 (factorInv_start le_rfl)
      fun i hi hin st hst => dpofaStep_spec hst hi (by omega) hn with ⟨r, hr, hinv⟩ | ⟨e, he, hbad⟩
    · rw [hr]
      exact Or.inl ⟨r, rfl, hinv⟩
    · rw [he]
      exact Or.inr hbad
  · rw [upto_eq_nil h1.le]
    exact Or.inl ⟨a₀, rfl, factorInv_start (by omega)⟩

/-- `info` is 0 if the matrix in the upper triangle is positive definite, and then the upper triangle holds its factor. Else
it is the order of the first leading minor that is not. Nothing is written outside of the upper triangle. -/
theorem dpofa_spec (a : ℤ → ℝ) (lda n : ℤ) (hn : n ≤ lda) :
    ((dpofa Real.sqrt a lda n).2 = 0 ↔ (symm (entries a lda) n.toNat).PosDef) ∧
    ((dpofa Real.sqrt a lda n).2 = 0 → (∀ k, 1 ≤ k → k ≤ n → 0 < (dpofa Real.sqrt a lda n).1 (addr lda k k)) ∧
      symm (entries a lda) n.toNat = (upper (entries (dpofa Real.sqrt a lda n).1 lda) n.toNat)ᵀ *
        upper (entries (dpofa Real.sqrt a lda n).1 lda) n.toNat) ∧
    ((dpofa Real.sqrt a lda n).2 ≠ 0 → 1 ≤ (dpofa Real.sqrt a lda n).2 ∧ (dpofa Real.sqrt a lda n).2 ≤ n ∧
      (symm (entries a lda) ((dpofa Real.sqrt a lda n).2 - 1).toNat).PosDef ∧
      ¬ (symm (entries a lda) (dpofa Real.sqrt a lda n).2.toNat).PosDef) ∧
    ∀ q, (∀ k l, 1 ≤ k → k ≤ l → l ≤ n → q ≠ addr lda k l) → (dpofa Real.sqrt a lda n).1 q = a q := by
  rcases dpofa_run a hn with ⟨r, hr, hinv⟩ | hbad
  · rw [hr]
    exact ⟨iff_of_true rfl (hinv.posDef (lt_add_one _)),
      fun _ => ⟨fun k hk hkn => hinv.pos k hk (by omega), (hinv.factors (lt_add_one _)).eq_transpose_mul⟩,
      fun hne => absurd rfl hne, fun q hq => hinv.rest q fun k l hk hkl hln => hq k l hk hkl (by omega)⟩
  · have hne : (dpofa Real.sqrt a lda n).2 ≠ 0 := by
      have := hbad.first
      omega
    refine ⟨iff_of_false hne fun hpos => ?_, fun h => absurd h hne, fun _ => ?_, hbad.rest⟩
    · have := hbad.last
      exact hbad.minor (posDef_of_le hpos (by omega))
    · exact ⟨hbad.first, hbad.last, hbad.before, hbad.minor⟩

theorem negative_dpofa_spec : (dpofa Real.sqrt (fun _ => -1) 1 1).2 = 1 := by
  obtain ⟨hzero, -, hinfo, -⟩ := dpofa_spec (fun _ => -1) 1 1 le_rfl
  have hneg : ¬ (symm (entries (fun _ => -1) 1) (1 : ℤ).toNat).PosDef := fun h => by
    have hdiag := h.diag_pos (i := ⟨0, by decide⟩)
    exact absurd hdiag (by norm_num [CholeskyFactor.symm, entries])
  have hne := fun h => hneg (hzero.mp h)
  have hrange := hinfo hne
  omega

/-! ## Solving with the factor -/

theorem forward_solved (b : ℤ → ℝ) (n : ℤ) (hdiag : ∀ k : ℤ, 1 ≤ k → k ≤ n → r (addr lda k k) ≠ 0) :
    ForwardInv r lda b n ((upto 1 (n + 1)).foldl (forwardStep r lda) b) := by
  rcases le_or_gt 0 n with h0 | h0
  · obtain ⟨m, rfl⟩ := Int.eq_ofNat_of_zero_le h0
    exact forward_run b m hdiag
  · rw [upto_eq_nil (by omega)]
    exact ⟨fun k h1 h2 => by omega, fun _ _ => rfl⟩

theorem backward_solved (y : ℤ → ℝ) (n : ℤ) (hdiag : ∀ k : ℤ, 1 ≤ k → k ≤ n → r (addr lda k k) ≠ 0) :
    BackwardInv r lda n y 1 ((upto 1 (n + 1)).foldl (backwardStep r lda n) y) := by
  rcases le_or_gt 0 n with h0 | h0
  · obtain ⟨m, rfl⟩ := Int.eq_ofNat_of_zero_le h0
    have := backward_run y hdiag m le_rfl
    rwa [add_sub_cancel_left] at this
  · rw [upto_eq_nil (by omega)]
    exact ⟨fun i h1 h2 => by omega, fun i h1 h2 => by omega, fun _ _ => rfl⟩

/-- With the factor of a positive definite matrix the system is solved, and nothing is written outside of the right hand
side. -/
theorem dposl_solves (a b : ℤ → ℝ) (lda n : ℤ) (hn : n ≤ lda) (hpos : (symm (entries a lda) n.toNat).PosDef) :
    (symm (entries a lda) n.toNat *ᵥ fun i : Fin n.toNat => dposl (dpofa Real.sqrt a lda n).1 lda n b (i : ℕ)) =
        (fun i : Fin n.toNat => b (i : ℕ)) ∧
      ∀ q, ¬ (0 ≤ q ∧ q < n) → dposl (dpofa Real.sqrt a lda n).1 lda n b q = b q := by
  obtain ⟨r, hr, hinv⟩ := (dpofa_run a hn).resolve_right fun hbad => by
    have := hbad.last
    exact hbad.minor (posDef_of_le hpos (by omega))
  rw [hr]
  have hdiag : ∀ k, 1 ≤ k → k ≤ n → r (addr lda k k) ≠ 0 := fun k hk hkn => (hinv.pos k hk (by omega)).ne'
  have hforward := forward_solved b n hdiag
  set y := (upto 1 (n + 1)).foldl (forwardStep r lda) b with hy
  have hbackward := backward_solved y n hdiag
  have hx : dposl r lda n b = (upto 1 (n + 1)).foldl (backwardStep r lda n) y := rfl
  rw [← hx] at hbackward
  constructor
  · have hlower : ((upper (entries r lda) n.toNat)ᵀ *ᵥ fun i : Fin n.toNat => y (i : ℕ)) =
        fun i : Fin n.toNat => b (i : ℕ) := by
      funext i
      rw [transpose_upper_mulVec]
      exact (hforward.solved ((i : ℕ) + 1) (by omega) (by omega)).trans (by rw [add_sub_cancel_right])
    have hupper : (upper (entries r lda) n.toNat *ᵥ fun i : Fin n.toNat => dposl r lda n b (i : ℕ)) =
        fun i : Fin n.toNat => y (i : ℕ) := by
      funext i
      have hin : ((n.toNat : ℕ) : ℤ) = n := by
        have := i.isLt
        omega
      rw [upper_mulVec, hin]
      exact (hbackward.solved ((i : ℕ) + 1) (by omega) (by omega)).trans (by rw [add_sub_cancel_right])
    rw [(hinv.factors (lt_add_one _)).eq_transpose_mul, ← mulVec_mulVec, hupper, hlower]
  · exact fun q hq => (hbackward.rest q hq).trans (hforward.rest q hq)

theorem single_dposl_solves : 4 * dposl (dpofa Real.sqrt (fun _ => 4) 1 1).1 1 1 (fun _ => 2) 0 = 2 := by
  have hpos : (symm (entries (fun _ => 4) 1) (1 : ℤ).toNat).PosDef := by
    have hfac : Factors (entries (fun _ => 4) 1) (fun _ _ => 1) (fun _ => 4) 1 := fun i l h1 h2 h3 => by
      obtain rfl : i = 1 := by push_cast at h3; omega
      simp [entries]
    exact (hfac.posDef_iff fun _ _ _ => one_ne_zero).mpr fun _ _ _ => four_pos
  have hsolved := congrFun (dposl_solves (fun _ => 4) (fun _ => 2) 1 1 le_rfl hpos).1 ⟨0, by decide⟩
  simpa [mulVec, dotProduct, CholeskyFactor.symm, entries] using hsolved

end Real

end ParFlow.Linpack
