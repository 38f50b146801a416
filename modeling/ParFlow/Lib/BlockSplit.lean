import Mathlib

/-! An interval of `m * P + l` points, `0 ≤ l < P`, split into `P` blocks of `m` or `m + 1`
points, the larger ones first. -/

namespace BlockSplit

def start (m l p : ℤ) : ℤ := p * m + min p l

def size (m l p : ℤ) : ℤ := if p < l then m + 1 else m

variable {m l p p' P x : ℤ}

theorem start_zero (hl : 0 ≤ l) : start m l 0 = 0 := by
  unfold start
  rw [zero_mul, zero_add]
  exact min_eq_left hl

theorem start_succ (m l p : ℤ) : start m l (p + 1) = start m l p + size m l p := by
  unfold start size
  rw [add_mul, one_mul]
  split_ifs <;> omega

theorem start_end (hP : l ≤ P) : start m l P = m * P + l := by
  unfold start
  rw [min_eq_right hP, mul_comm]

theorem start_le (hm : 0 ≤ m) (h : p ≤ p') : start m l p ≤ start m l p' := by
  have hmul := mul_le_mul_of_nonneg_right h hm
  unfold start
  omega

theorem size_pos (hm : 0 < m) (l p : ℤ) : 0 < size m l p := by
  unfold size
  split_ifs <;> omega

theorem abs_size_sub_le (m l p p' : ℤ) : |size m l p - size m l p'| ≤ 1 := by
  rw [abs_le]
  unfold size
  constructor <;> split_ifs <;> omega

/-- The point `x` lies in block `p`. -/
def InBlock (m l p x : ℤ) : Prop := start m l p ≤ x ∧ x < start m l p + size m l p

theorem InBlock.le (hm : 0 ≤ m) {x' : ℤ} (h : InBlock m l p x) (h' : InBlock m l p' x') (hx : x ≤ x') : p ≤ p' := by
  by_contra hlt
  have hle := start_le (l := l) hm (show p' + 1 ≤ p by omega)
  rw [start_succ] at hle
  have h₁ := h.1
  have h₂ := h'.2
  omega

theorem InBlock.unique (hm : 0 ≤ m) (h : InBlock m l p x) (h' : InBlock m l p' x) : p = p' :=
  le_antisymm (h.le hm h' le_rfl) (h'.le hm h le_rfl)

theorem InBlock.bounds (hm : 0 ≤ m) (hl : 0 ≤ l) (hP : l ≤ P) (hp : 0 ≤ p ∧ p < P) (h : InBlock m l p x) :
    0 ≤ x ∧ x < m * P + l := by
  have h₀ := start_le (l := l) hm hp.1
  have h₁ := start_le (l := l) hm (show p + 1 ≤ P by omega)
  rw [start_zero hl] at h₀
  rw [start_end hP, start_succ] at h₁
  exact ⟨h₀.trans h.1, h.2.trans_le h₁⟩

theorem exists_inBlock (hl : 0 ≤ l) (hP : l ≤ P) (h0 : 0 ≤ P) (hx : 0 ≤ x ∧ x < m * P + l) :
    ∃ p, (0 ≤ p ∧ p < P) ∧ InBlock m l p x := by
  rw [← start_end hP] at hx
  clear hP
  induction P, h0 using Int.leInduction with
  | base =>
    rw [start_zero hl] at hx
    omega
  | succ P h0 ih =>
    rcases lt_or_ge x (start m l P) with h | h
    · obtain ⟨p, hp, hb⟩ := ih ⟨hx.1, h⟩
      exact ⟨p, ⟨hp.1, by omega⟩, hb⟩
    · rw [start_succ] at hx
      exact ⟨P, ⟨h0, by omega⟩, h, hx.2⟩

/-- The point after the last one of a block is the first one of the next block. -/
theorem inBlock_succ_iff (hm : 0 < m) (h : InBlock m l p x) (hx : ¬ InBlock m l p (x + 1)) :
    InBlock m l p' (x + 1) ↔ p' = p + 1 := by
  have hlast : x + 1 = start m l (p + 1) := by
    rw [start_succ]
    unfold InBlock at h hx
    omega
  have hnext : InBlock m l (p + 1) (x + 1) := by
    have := size_pos hm l (p + 1)
    unfold InBlock
    omega
  constructor
  · intro h'
    exact h'.unique hm.le hnext
  · rintro rfl
    exact hnext

end BlockSplit
