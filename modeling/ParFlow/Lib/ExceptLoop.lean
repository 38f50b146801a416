import Mathlib
import ParFlow.Lib.IntLoop

/-! Loops in `Except`: what holds after every round, and when a loop fails. -/

namespace ExceptLoop

universe u

variable {ε ι : Type*} {σ β γ : Type u}

theorem bind_ok {x : Except ε β} {a : β} (h : x = .ok a) (g : β → Except ε γ) : (x >>= g) = g a := by
  rw [h]
  rfl

theorem exists_of_bind_ok {x : Except ε β} {g : β → Except ε γ} {s : γ} (h : (x >>= g) = .ok s) :
    ∃ a, x = .ok a ∧ g a = .ok s := by
  cases x with
  | error e => exact absurd h (by simp [bind, Except.bind])
  | ok a => exact ⟨a, rfl, h⟩

theorem foldlM_congr {f g : σ → ι → Except ε σ} {l : List ι} (h : ∀ x ∈ l, ∀ st, f st x = g st x) (st : σ) :
    l.foldlM f st = l.foldlM g st := by
  induction l generalizing st with
  | nil => rfl
  | cons x l ih =>
    rw [List.foldlM_cons, List.foldlM_cons, h x List.mem_cons_self]
    exact bind_congr fun st' => ih (fun y hy => h y (List.mem_cons_of_mem _ hy)) st'

theorem foldlM_flatMap {α : Type*} (f : α → List ι) (g : σ → ι → Except ε σ) (l : List α) (st : σ) :
    (l.flatMap f).foldlM g st = l.foldlM (fun st a => (f a).foldlM g st) st := by
  induction l generalizing st with
  | nil => rfl
  | cons a l ih =>
    rw [List.flatMap_cons, List.foldlM_append, List.foldlM_cons]
    exact bind_congr ih

/-- An invariant that speaks about the rounds done so far, or the error of a round. -/
theorem foldlM_inv_or {f : σ → ι → Except ε σ} {Bad : ε → Prop} (Inv : List ι → σ → Prop) {l : List ι} {st : σ}
    (h0 : Inv [] st) (hstep : ∀ pre x post st, l = pre ++ x :: post → Inv pre st →
      (∃ st', f st x = .ok st' ∧ Inv (pre ++ [x]) st') ∨ ∃ e, f st x = .error e ∧ Bad e) :
    (∃ st', l.foldlM f st = .ok st' ∧ Inv l st') ∨ ∃ e, l.foldlM f st = .error e ∧ Bad e := by
  have hrun : ∀ (post pre : List ι) (st : σ), l = pre ++ post → Inv pre st →
      (∃ st', post.foldlM f st = .ok st' ∧ Inv l st') ∨ ∃ e, post.foldlM f st = .error e ∧ Bad e := by
    intro post
    induction post with
    | nil =>
      intro pre st hl hpre
      rw [List.append_nil] at hl
      exact Or.inl ⟨st, rfl, hl ▸ hpre⟩
    | cons x post ih =>
      intro pre st hl hpre
      rw [List.foldlM_cons]
      rcases hstep pre x post st hl hpre with ⟨st₁, h₁, hinv⟩ | ⟨e, h₁, hbad⟩
      · rw [bind_ok h₁]
        exact ih (pre ++ [x]) st₁ (by simp [hl]) hinv
      · rw [h₁]
        exact Or.inr ⟨e, rfl, hbad⟩
  exact hrun l [] st rfl h0

/-- The same without an error. -/
theorem foldlM_inv {f : σ → ι → Except ε σ} (Inv : List ι → σ → Prop) {l : List ι} {st : σ} (h0 : Inv [] st)
    (hstep : ∀ pre x post st, l = pre ++ x :: post → Inv pre st → ∃ st', f st x = .ok st' ∧ Inv (pre ++ [x]) st') :
    ∃ st', l.foldlM f st = .ok st' ∧ Inv l st' :=
  (foldlM_inv_or Inv h0 fun pre x post st hl hpre =>
    Or.inl (hstep pre x post st hl hpre)).resolve_right fun ⟨_, _, h⟩ => h

/-- The same for a counting loop, with an invariant that speaks about the counter. -/
theorem foldlM_upto_or {f : σ → ℤ → Except ε σ} {Bad : ε → Prop} (Inv : ℤ → σ → Prop) {lo hi : ℤ} (hle : lo ≤ hi) {st : σ}
    (h0 : Inv lo st) (hstep : ∀ i, lo ≤ i → i < hi → ∀ st, Inv i st →
      (∃ st', f st i = .ok st' ∧ Inv (i + 1) st') ∨ ∃ e, f st i = .error e ∧ Bad e) :
    (∃ st', (IntLoop.upto lo hi).foldlM f st = .ok st' ∧ Inv hi st') ∨
      ∃ e, (IntLoop.upto lo hi).foldlM f st = .error e ∧ Bad e := by
  induction hi, hle using Int.leInduction generalizing st with
  | base => exact Or.inl ⟨st, by rw [IntLoop.upto_eq_nil le_rfl]; rfl, h0⟩
  | succ hi hle ih =>
    rw [IntLoop.upto_concat hle, List.foldlM_append]
    rcases ih h0 fun i hi hlt => hstep i hi (by omega) with ⟨st₁, h₁, hinv⟩ | ⟨e, h₁, hbad⟩
    · rw [bind_ok h₁, List.foldlM_cons]
      rcases hstep hi hle (by omega) st₁ hinv with ⟨st₂, h₂, hinv'⟩ | ⟨e, h₂, hbad⟩
      · rw [bind_ok h₂]
        exact Or.inl ⟨st₂, rfl, hinv'⟩
      · rw [h₂]
        exact Or.inr ⟨e, rfl, hbad⟩
    · rw [h₁]
      exact Or.inr ⟨e, rfl, hbad⟩

/-- The same for a loop over `0, …, n - 1`, with the number of rounds. -/
theorem foldlM_range {f : σ → ℕ → Except ε σ} (Inv : ℕ → σ → Prop) {n : ℕ} {st : σ} (h0 : Inv 0 st)
    (hstep : ∀ k < n, ∀ st, Inv k st → ∃ st', f st k = .ok st' ∧ Inv (k + 1) st') :
    ∃ st', (List.range n).foldlM f st = .ok st' ∧ Inv n st' := by
  induction n with
  | zero => exact ⟨st, rfl, h0⟩
  | succ n ih =>
    obtain ⟨st₁, h₁, hinv⟩ := ih fun k hk => hstep k (by omega)
    obtain ⟨st₂, h₂, hinv'⟩ := hstep n (by omega) st₁ hinv
    refine ⟨st₂, ?_, hinv'⟩
    rw [List.range_succ, List.foldlM_append, bind_ok h₁, List.foldlM_cons, bind_ok h₂]
    rfl

/-- An invariant of a loop over `0, …, n - 1` that came to its end. -/
theorem inv_of_foldlM_range {f : σ → ℕ → Except ε σ} (Inv : ℕ → σ → Prop) {n : ℕ} {st st' : σ} (h0 : Inv 0 st)
    (hstep : ∀ k < n, ∀ st st', Inv k st → f st k = .ok st' → Inv (k + 1) st')
    (h : (List.range n).foldlM f st = .ok st') : Inv n st' := by
  induction n generalizing st' with
  | zero =>
    cases h
    exact h0
  | succ n ih =>
    rw [List.range_succ, List.foldlM_append] at h
    obtain ⟨st₁, h₁, h₂⟩ := exists_of_bind_ok h
    rw [List.foldlM_cons] at h₂
    obtain ⟨st₂, h₃, h₄⟩ := exists_of_bind_ok h₂
    cases h₄
    exact hstep n (by omega) st₁ _ (ih (fun k hk => hstep k (by omega)) h₁) h₃

/-- A loop fails when one of its rounds fails in every state. -/
theorem foldlM_ne_ok {f : σ → ι → Except ε σ} {x : ι} (hx : ∀ st st', f st x ≠ .ok st') {l : List ι} (hl : x ∈ l)
    (st st' : σ) : l.foldlM f st ≠ .ok st' := by
  induction l generalizing st with
  | nil => exact absurd hl List.not_mem_nil
  | cons y l ih =>
    intro h
    rw [List.foldlM_cons] at h
    obtain ⟨st₁, h₁, h₂⟩ := exists_of_bind_ok h
    rcases List.mem_cons.mp hl with rfl | hmem
    · exact hx st st₁ h₁
    · exact ih hmem st₁ h₂

theorem mapM_forall₂ {f : ι → Except ε β} {P : ι → β → Prop} {l : List ι} (h : ∀ x ∈ l, ∃ b, f x = .ok b ∧ P x b) :
    ∃ bs, l.mapM f = .ok bs ∧ List.Forall₂ P l bs := by
  induction l with
  | nil => exact ⟨[], rfl, .nil⟩
  | cons x l ih =>
    obtain ⟨b, hb, hP⟩ := h x List.mem_cons_self
    obtain ⟨bs, hbs, hall⟩ := ih fun y hy => h y (List.mem_cons_of_mem _ hy)
    refine ⟨b :: bs, ?_, .cons hP hall⟩
    rw [List.mapM_cons, bind_ok hb, bind_ok hbs]
    rfl

end ExceptLoop

/-! Arrays of a fixed size that are read and written through an index, which is checked, and rules for programs that
succeed as long as their indices are in bounds. -/

namespace CheckedArray

inductive Fault where
  | outOfBounds
  deriving DecidableEq, Repr

variable {α β γ ι : Type}

def read (l : List α) (i : ℤ) : Except Fault α :=
  if 0 ≤ i then
    match l[i.toNat]? with
    | some a => .ok a
    | none => .error .outOfBounds
  else .error .outOfBounds

def write (l : List α) (i : ℤ) (a : α) : Except Fault (List α) :=
  if 0 ≤ i ∧ i < l.length then .ok (l.set i.toNat a) else .error .outOfBounds

/-- The program ends without a fault in a result with the property. -/
def Succeeds (x : Except Fault β) (P : β → Prop) : Prop := ∃ r, x = .ok r ∧ P r

variable {l : List α} {i : ℤ} {a : α} {x : Except Fault β} {g : β → Except Fault γ} {P : β → Prop} {Q : γ → Prop}

theorem succeeds_ok {r : β} (h : P r) : Succeeds (.ok r) P := ⟨r, rfl, h⟩

theorem Succeeds.bind (hx : Succeeds x P) (hg : ∀ r, P r → Succeeds (g r) Q) : Succeeds (x >>= g) Q := by
  obtain ⟨r, rfl, hr⟩ := hx
  exact hg r hr

theorem Succeeds.mono {P' : β → Prop} (hx : Succeeds x P) (h : ∀ r, P r → P' r) : Succeeds x P' := by
  obtain ⟨r, hr, hP⟩ := hx
  exact ⟨r, hr, h r hP⟩

theorem succeeds_read {g : α → Except Fault γ} (h0 : 0 ≤ i) (h : i < l.length) (hg : ∀ a, Succeeds (g a) Q) :
    Succeeds (read l i >>= g) Q := by
  obtain ⟨n, rfl⟩ := Int.eq_ofNat_of_zero_le h0
  have hn : n < l.length := by exact_mod_cast h
  have hread : read l n = .ok l[n] := by simp [read, hn]
  rw [hread]
  exact hg l[n]

theorem succeeds_write {g : List α → Except Fault γ} (h0 : 0 ≤ i) (h : i < l.length)
    (hg : ∀ l', l'.length = l.length → Succeeds (g l') Q) : Succeeds (write l i a >>= g) Q := by
  have hwrite : write l i a = .ok (l.set i.toNat a) := if_pos ⟨h0, h⟩
  rw [hwrite]
  exact hg _ List.length_set

theorem succeeds_ite {c : Prop} [Decidable c] {y : Except Fault β} (hx : Succeeds x P) (hy : Succeeds y P) :
    Succeeds (if c then x else y) P := by
  split_ifs
  · exact hx
  · exact hy

theorem succeeds_foldlM {f : β → ι → Except Fault β} {l : List ι} (hf : ∀ i ∈ l, ∀ s, P s → Succeeds (f s i) P) {s : β}
    (hs : P s) : Succeeds (l.foldlM f s) P := by
  induction l generalizing s with
  | nil => exact succeeds_ok hs
  | cons i l ih =>
    rw [List.foldlM_cons]
    exact (hf i List.mem_cons_self s hs).bind fun s' hs' => ih (fun j hj => hf j (List.mem_cons_of_mem _ hj)) hs'

/-- A read behind the end. -/
theorem read_bind_ne_ok {g : α → Except Fault γ} (h : (l.length : ℤ) ≤ i) (r : γ) : (read l i >>= g) ≠ .ok r := by
  obtain ⟨n, rfl⟩ := Int.eq_ofNat_of_zero_le (le_trans (Int.natCast_nonneg _) h)
  have hn : l.length ≤ n := by exact_mod_cast h
  have hread : read l n = .error .outOfBounds := by simp [read, List.getElem?_eq_none hn]
  rw [hread]
  exact fun hok => by cases hok

theorem bind_ne_ok_of_left {r : γ} (h : ∀ b, x ≠ .ok b) : (x >>= g) ≠ .ok r := by
  cases x with
  | error e => exact fun hok => by cases hok
  | ok b => exact absurd rfl (h b)

theorem bind_ne_ok {r : γ} (h : ∀ b, g b ≠ .ok r) : (x >>= g) ≠ .ok r := by
  cases x with
  | error e => exact fun hok => by cases hok
  | ok b => exact h b

end CheckedArray
