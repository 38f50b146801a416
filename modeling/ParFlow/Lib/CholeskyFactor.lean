import Mathlib.Algebra.Order.Star.Real
import Mathlib.Analysis.Matrix.PosDef
import Mathlib.LinearAlgebra.Matrix.Block

/-! Symmetric matrices of which the upper triangle is given, with indices that count from 1, and their triangular factors. -/

namespace CholeskyFactor

open Matrix

/-- The symmetric matrix of order `m` with the upper triangle `a`. -/
def symm (a : ℤ → ℤ → ℝ) (m : ℕ) : Matrix (Fin m) (Fin m) ℝ :=
  of fun i l => a (min ((i : ℕ) + 1 : ℤ) ((l : ℕ) + 1)) (max ((i : ℕ) + 1 : ℤ) ((l : ℕ) + 1))

def upper (u : ℤ → ℤ → ℝ) (m : ℕ) : Matrix (Fin m) (Fin m) ℝ :=
  of fun k l => if k ≤ l then u ((k : ℕ) + 1) ((l : ℕ) + 1) else 0

variable {a u : ℤ → ℤ → ℝ} {m : ℕ}

theorem sum_fin (f : ℤ → ℝ) (m : ℕ) : ∑ i : Fin m, f ((i : ℕ) + 1) = ∑ i ∈ Finset.Ico (1 : ℤ) (m + 1), f i := by
  induction m with
  | zero => simp
  | succ m ih =>
    rw [Fin.sum_univ_castSucc]
    simp only [Fin.val_castSucc, Fin.val_last]
    rw [ih, Nat.cast_succ, ← Finset.insert_Ico_right_eq_Ico_add_one (a := 1) (b := (m : ℤ) + 1) (by omega),
      Finset.sum_insert (by simp), add_comm]

/-- A sum over the indices up to one of them. -/
theorem sum_fin_le (f : ℤ → ℝ) (i : Fin m) :
    ∑ k : Fin m, (if k ≤ i then f ((k : ℕ) + 1) else 0) = ∑ k ∈ Finset.Ico (1 : ℤ) ((i : ℕ) + 1 + 1), f k := by
  have hif : ∀ k : Fin m, (if k ≤ i then f ((k : ℕ) + 1) else 0) =
      (fun k : ℤ => if k ≤ (i : ℕ) + 1 then f k else 0) ((k : ℕ) + 1) := by
    intro k
    refine if_congr ?_ rfl rfl
    rw [Fin.le_def]
    omega
  rw [Finset.sum_congr rfl fun k _ => hif k, sum_fin fun k => if k ≤ (i : ℕ) + 1 then f k else 0, ← Finset.sum_filter]
  refine Finset.sum_congr ?_ fun _ _ => rfl
  ext k
  have := i.isLt
  simp only [Finset.mem_filter, Finset.mem_Ico]
  omega

theorem sum_fin_ge (f : ℤ → ℝ) (i : Fin m) :
    ∑ k : Fin m, (if i ≤ k then f ((k : ℕ) + 1) else 0) = ∑ k ∈ Finset.Ico ((i : ℕ) + 1 : ℤ) (m + 1), f k := by
  have hif : ∀ k : Fin m, (if i ≤ k then f ((k : ℕ) + 1) else 0) =
      (fun k : ℤ => if (i : ℕ) + 1 ≤ k then f k else 0) ((k : ℕ) + 1) := by
    intro k
    refine if_congr ?_ rfl rfl
    rw [Fin.le_def]
    omega
  rw [Finset.sum_congr rfl fun k _ => hif k, sum_fin fun k => if (i : ℕ) + 1 ≤ k then f k else 0, ← Finset.sum_filter]
  refine Finset.sum_congr ?_ fun _ _ => rfl
  ext k
  have := i.isLt
  simp only [Finset.mem_filter, Finset.mem_Ico]
  omega

/-- The factors are those of the matrix, with the weights `d` between them. -/
def Factors (a u : ℤ → ℤ → ℝ) (d : ℤ → ℝ) (m : ℕ) : Prop :=
  ∀ i l : ℤ, 1 ≤ i → i ≤ l → l ≤ m → ∑ k ∈ Finset.Ico (1 : ℤ) (i + 1), u k i * (d k * u k l) = a i l

theorem Factors.eq_mul {d : ℤ → ℝ} (h : Factors a u d m) :
    symm a m = (upper u m)ᵀ * diagonal (fun i : Fin m => d ((i : ℕ) + 1)) * upper u m := by
  have hentry : ∀ i l : Fin m, i ≤ l →
      ((upper u m)ᵀ * diagonal (fun i : Fin m => d ((i : ℕ) + 1)) * upper u m) i l = a ((i : ℕ) + 1) ((l : ℕ) + 1) := by
    intro i l hil
    rw [← h ((i : ℕ) + 1) ((l : ℕ) + 1) (by omega) (by rw [Fin.le_def] at hil; omega) (by omega),
      ← sum_fin_le (fun k => u k ((i : ℕ) + 1) * (d k * u k ((l : ℕ) + 1)))]
    rw [Matrix.mul_assoc, Matrix.mul_apply]
    refine Finset.sum_congr rfl fun k _ => ?_
    rw [diagonal_mul, transpose_apply, upper, of_apply, of_apply]
    by_cases hk : k ≤ i
    · rw [if_pos hk, if_pos hk, if_pos (hk.trans hil)]
    · rw [if_neg hk, if_neg hk, zero_mul]
  ext i l
  rcases le_total i l with hil | hil
  · rw [hentry i l hil, symm, of_apply, min_eq_left (by rw [Fin.le_def] at hil; omega),
      max_eq_right (by rw [Fin.le_def] at hil; omega)]
  · -- both sides are symmetric
    have hsymm : ((upper u m)ᵀ * diagonal (fun i : Fin m => d ((i : ℕ) + 1)) * upper u m)ᵀ =
        (upper u m)ᵀ * diagonal (fun i : Fin m => d ((i : ℕ) + 1)) * upper u m := by
      rw [transpose_mul, transpose_mul, diagonal_transpose, transpose_transpose, Matrix.mul_assoc]
    rw [← hsymm, transpose_apply, hentry l i hil, symm, of_apply, min_eq_right (by rw [Fin.le_def] at hil; omega),
      max_eq_left (by rw [Fin.le_def] at hil; omega)]

theorem Factors.eq_transpose_mul (h : Factors a u (fun _ => 1) m) : symm a m = (upper u m)ᵀ * upper u m := by
  rw [h.eq_mul, diagonal_one, Matrix.mul_one]

/-! ## Rows of the triangular systems -/

theorem transpose_upper_mulVec (u : ℤ → ℤ → ℝ) (x : ℤ → ℝ) (i : Fin m) :
    ((upper u m)ᵀ *ᵥ fun k : Fin m => x (k : ℕ)) i =
      ∑ k ∈ Finset.Ico (1 : ℤ) ((i : ℕ) + 1 + 1), u k ((i : ℕ) + 1) * x (k - 1) := by
  rw [← sum_fin_le fun k => u k ((i : ℕ) + 1) * x (k - 1), mulVec, dotProduct]
  refine Finset.sum_congr rfl fun k _ => ?_
  rw [transpose_apply, upper, of_apply, ite_mul, zero_mul, add_sub_cancel_right]

theorem upper_mulVec (u : ℤ → ℤ → ℝ) (x : ℤ → ℝ) (i : Fin m) :
    (upper u m *ᵥ fun k : Fin m => x (k : ℕ)) i =
      ∑ k ∈ Finset.Ico ((i : ℕ) + 1 : ℤ) (m + 1), u ((i : ℕ) + 1) k * x (k - 1) := by
  rw [← sum_fin_ge fun k => u ((i : ℕ) + 1) k * x (k - 1), mulVec, dotProduct]
  refine Finset.sum_congr rfl fun k _ => ?_
  rw [upper, of_apply, ite_mul, zero_mul, add_sub_cancel_right]

/-! ## Positive definite matrices -/

theorem isUnit_upper (hdiag : ∀ i : ℤ, 1 ≤ i → i ≤ m → u i i ≠ 0) : IsUnit (upper u m) := by
  have htri : (upper u m).BlockTriangular id := fun k l hkl => if_neg (not_le.mpr hkl)
  rw [Matrix.isUnit_iff_isUnit_det, det_of_isUpperTriangular htri, isUnit_iff_ne_zero, Finset.prod_ne_zero_iff]
  intro i _
  have hi := hdiag ((i : ℕ) + 1) (by omega) (by omega)
  rwa [upper, of_apply, if_pos le_rfl]

/-- A matrix is positive definite if the weights between its factors are positive, and only then. -/
theorem Factors.posDef_iff {d : ℤ → ℝ} (h : Factors a u d m) (hdiag : ∀ i : ℤ, 1 ≤ i → i ≤ m → u i i ≠ 0) :
    (symm a m).PosDef ↔ ∀ i : ℤ, 1 ≤ i → i ≤ m → 0 < d i := by
  have hstar : (upper u m)ᵀ = star (upper u m) := by
    rw [star_eq_conjTranspose, conjTranspose_eq_transpose_of_trivial]
  rw [h.eq_mul, hstar, IsUnit.posDef_star_left_conjugate_iff (isUnit_upper hdiag), posDef_diagonal_iff]
  constructor
  · intro hd i h1 hm
    have := hd ⟨(i - 1).toNat, by omega⟩
    rwa [show (((i - 1).toNat : ℕ) : ℤ) + 1 = i by omega] at this
  · exact fun hd i => hd _ (by omega) (by omega)

theorem posDef_of_le {k : ℕ} (h : (symm a m).PosDef) (hk : k ≤ m) : (symm a k).PosDef := by
  have hsub : symm a k = (symm a m).submatrix (Fin.castLE hk) (Fin.castLE hk) := by
    ext i l
    rfl
  rw [hsub]
  exact h.submatrix (Fin.castLE_injective hk)

end CholeskyFactor
