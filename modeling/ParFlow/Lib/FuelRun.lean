import Mathlib

/-! Programs that may loop or follow a null pointer, run with a bound on their steps.
A run returns when every sufficiently large bound gives the same result. -/

namespace FuelRun

inductive Fault where
  | null | fuel
  deriving DecidableEq, Repr

variable {β γ : Type} {f : ℕ → Except Fault β} {r r' : β}

/-- With enough fuel the run ends in `r`. -/
def Returns (f : ℕ → Except Fault β) (r : β) : Prop := ∃ N, ∀ fuel, N ≤ fuel → f fuel = .ok r

theorem Returns.unique (h : Returns f r) (h' : Returns f r') : r = r' := by
  obtain ⟨N, hN⟩ := h
  obtain ⟨N', hN'⟩ := h'
  exact Except.ok.inj ((hN (max N N') (le_max_left _ _)).symm.trans (hN' _ (le_max_right _ _)))

theorem returns_of_add (N : ℕ) (h : ∀ n, f (n + N) = .ok r) : Returns f r := by
  refine ⟨N, fun fuel hf => ?_⟩
  obtain ⟨n, rfl⟩ := Nat.exists_eq_add_of_le' hf
  exact h n

theorem returns_of_succ {g : ℕ → Except Fault β} (hg : Returns g r) (h : ∀ n, f (n + 1) = g n) : Returns f r := by
  obtain ⟨N, hN⟩ := hg
  refine ⟨N + 1, fun fuel hf => ?_⟩
  obtain ⟨n, rfl⟩ : ∃ n, fuel = n + 1 := ⟨fuel - 1, by omega⟩
  rw [h]
  exact hN n (by omega)

theorem bind_eq_ok {x : Except Fault β} {g : β → Except Fault γ} {s : γ} (h : (x >>= g) = .ok s) :
    ∃ r, x = .ok r ∧ g r = .ok s := by
  cases x with
  | error e => exact absurd h (by simp [bind, Except.bind])
  | ok r => exact ⟨r, rfl, h⟩

theorem returns_const (r : β) : Returns (fun _ => .ok r) r := ⟨0, fun _ _ => rfl⟩

/-- A first part that returns can be replaced by its result. -/
theorem returns_bind_iff {g : ℕ → β → Except Fault γ} {s : γ} (h : Returns f r) :
    Returns (fun n => f n >>= g n) s ↔ Returns (fun n => g n r) s := by
  obtain ⟨N, hN⟩ := h
  have heq : ∀ n, N ≤ n → (f n >>= g n) = g n r := fun n hn => by rw [hN n hn]; rfl
  constructor
  · rintro ⟨M, hM⟩
    exact ⟨max N M, fun n hn => (heq n (by omega)).symm.trans (hM n (by omega))⟩
  · rintro ⟨M, hM⟩
    exact ⟨max N M, fun n hn => (heq n (by omega)).trans (hM n (by omega))⟩

theorem returns_mapM {α : Type} {l : List α} {g : ℕ → α → Except Fault β} {G : α → β}
    (h : ∀ x ∈ l, Returns (fun n => g n x) (G x)) : Returns (fun n => l.mapM (g n)) (l.map G) := by
  induction l with
  | nil => exact returns_const []
  | cons x l ih =>
    simp only [List.mapM_cons]
    rw [returns_bind_iff (h x List.mem_cons_self), returns_bind_iff (ih fun y hy => h y (List.mem_cons_of_mem _ hy))]
    exact returns_const _

theorem returns_foldlM {α : Type} {l : List α} {g : ℕ → γ → α → Except Fault γ} {G : γ → α → γ}
    (h : ∀ x ∈ l, ∀ st, Returns (fun n => g n st x) (G st x)) (st : γ) :
    Returns (fun n => l.foldlM (g n) st) (l.foldl G st) := by
  induction l generalizing st with
  | nil => exact returns_const st
  | cons x l ih =>
    simp only [List.foldlM_cons]
    exact (returns_bind_iff (h x List.mem_cons_self st)).mpr (ih (fun y hy => h y (List.mem_cons_of_mem _ hy)) _)

/-- A loop whose rounds return keeps an invariant; a round may use that the rounds before have brought its state about. -/
theorem returns_foldlM_inv {α : Type} {g : ℕ → γ → α → Except Fault γ} (Inv : γ → Prop) {st : γ} (hst : Inv st) {l : List α}
    (hstep : ∀ pre x post s, l = pre ++ x :: post → Returns (fun n => pre.foldlM (g n) st) s → Inv s →
      ∃ s', Returns (fun n => g n s x) s' ∧ Inv s') : ∃ s, Returns (fun n => l.foldlM (g n) st) s ∧ Inv s := by
  induction l using List.reverseRecOn with
  | nil => exact ⟨st, returns_const st, hst⟩
  | append_singleton l x ih =>
    obtain ⟨s, hs, hinv⟩ := ih fun pre y post s hl =>
      hstep pre y (post ++ [x]) s (by rw [hl, List.append_assoc, List.cons_append])
    obtain ⟨s', hs', hinv'⟩ := hstep l x [] s rfl hs hinv
    refine ⟨s', ?_, hinv'⟩
    simp only [List.foldlM_append, List.foldlM_cons, List.foldlM_nil, bind_pure]
    exact (returns_bind_iff hs).mpr hs'

/-! ## More fuel -/

/-- More fuel does not change a result. -/
def Stable (f : ℕ → Except Fault β) : Prop := ∀ n r, f n = .ok r → f (n + 1) = .ok r

theorem Stable.returns (h : Stable f) {n : ℕ} (hn : f n = .ok r) : Returns f r := by
  refine ⟨n, fun fuel hf => ?_⟩
  induction fuel, hf using Nat.le_induction with
  | base => exact hn
  | succ fuel _ ih => exact h fuel r ih

theorem stable_const (x : Except Fault β) : Stable fun _ => x := fun _ _ h => h

theorem Stable.bind {g : ℕ → β → Except Fault γ} (hf : Stable f) (hg : ∀ r, Stable fun n => g n r) :
    Stable fun n => f n >>= g n := by
  intro n s h
  obtain ⟨r, hr, hs⟩ := bind_eq_ok h
  show f (n + 1) >>= g (n + 1) = .ok s
  rw [hf n r hr]
  exact hg r n s hs

theorem foldlM_ok_mono {α : Type} {f g : γ → α → Except Fault γ} (h : ∀ st x r, f st x = .ok r → g st x = .ok r) {l : List α}
    {st r : γ} (hr : l.foldlM f st = .ok r) : l.foldlM g st = .ok r := by
  induction l generalizing st with
  | nil => exact hr
  | cons x l ih =>
    rw [List.foldlM_cons] at hr ⊢
    obtain ⟨st', hst', hr'⟩ := bind_eq_ok hr
    rw [h st x st' hst']
    exact ih hr'

theorem stable_foldlM {α : Type} {g : ℕ → γ → α → Except Fault γ} (hg : ∀ st x, Stable fun n => g n st x) (l : List α) (st : γ) :
    Stable fun n => l.foldlM (g n) st := fun n _ h => foldlM_ok_mono (fun st x r => hg st x n r) h

/-- A loop whose rounds return keeps an invariant, and what each round reaches for its own value lasts. -/
theorem returns_foldlM_each {α : Type} {g : ℕ → γ → α → Except Fault γ} (Good : γ → Prop) (R : γ → γ → Prop)
    (P : α → γ → Prop) (hrefl : ∀ st, R st st) (htrans : ∀ st₁ st₂ st₃, R st₁ st₂ → R st₂ st₃ → R st₁ st₃)
    (hlasts : ∀ x st st', R st st' → P x st → P x st')
    {l : List α} (hstep : ∀ x ∈ l, ∀ st, Good st → ∃ st', Returns (fun n => g n st x) st' ∧ Good st' ∧ R st st' ∧ P x st')
    (st : γ) (hst : Good st) :
    ∃ st', Returns (fun n => l.foldlM (g n) st) st' ∧ Good st' ∧ R st st' ∧ ∀ x ∈ l, P x st' := by
  induction l generalizing st with
  | nil => exact ⟨st, returns_const st, hst, hrefl st, fun x hx => absurd hx List.not_mem_nil⟩
  | cons x l ih =>
    obtain ⟨st₁, h₁, hgood₁, hR₁, hP₁⟩ := hstep x List.mem_cons_self st hst
    obtain ⟨st₂, h₂, hgood₂, hR₂, hP₂⟩ := ih (fun y hy => hstep y (List.mem_cons_of_mem _ hy)) st₁ hgood₁
    refine ⟨st₂, ?_, hgood₂, htrans _ _ _ hR₁ hR₂, List.forall_mem_cons.mpr ⟨hlasts _ _ _ hR₂ hP₁, hP₂⟩⟩
    simp only [List.foldlM_cons]
    exact (returns_bind_iff h₁).mpr h₂

end FuelRun

/-! Loops `do body while again` whose body may fail: the final state, the states at the ends of the rounds, and
the rules that carry an invariant through them. -/

namespace DoWhile

variable {σ ε : Type*} (body : σ → Except ε σ) (again : σ → Bool)

/-- The loop, cut off after `n + 1` rounds. -/
def run : ℕ → σ → Except ε σ
  | 0, s => body s
  | n + 1, s => body s >>= fun s' => if again s' then run n s' else .ok s'

/-- The states at the ends of the rounds. A round that fails leaves no state. -/
def rounds : ℕ → σ → List σ
  | 0, s => (body s).toOption.toList
  | n + 1, s => (body s).toOption.elim [] fun s' => s' :: if again s' then rounds n s' else []

variable {body again} {s r : σ} {n : ℕ}

theorem run_succ_ok {s' : σ} (h : body s = .ok s') :
    run body again (n + 1) s = if again s' then run body again n s' else .ok s' := by
  rw [run, h]
  rfl

theorem run_succ_error {e : ε} (h : body s = .error e) : run body again (n + 1) s = .error e := by
  rw [run, h]
  rfl

theorem rounds_succ_ok {s' : σ} (h : body s = .ok s') :
    rounds body again (n + 1) s = s' :: if again s' then rounds body again n s' else [] := by
  rw [rounds, h]
  rfl

theorem rounds_succ_error {e : ε} (h : body s = .error e) : rounds body again (n + 1) s = [] := by
  rw [rounds, h]
  rfl

/-- The last round starts in a state of the invariant. -/
theorem exists_last_round {Inv : σ → Prop} (hstep : ∀ s s', Inv s → body s = .ok s' → again s' = true → Inv s')
    (h0 : Inv s) (h : run body again n s = .ok r) : ∃ s', Inv s' ∧ body s' = .ok r := by
  induction n generalizing s with
  | zero => exact ⟨s, h0, h⟩
  | succ n ih =>
    cases hbody : body s with
    | error e =>
      rw [run_succ_error hbody] at h
      cases h
    | ok s' =>
      rw [run_succ_ok hbody] at h
      split_ifs at h with hagain
      · exact ih (hstep s s' h0 hbody hagain) h
      · cases h
        exact ⟨s, h0, hbody⟩

/-- A measure that falls in every round that is followed by another one bounds the number of rounds. -/
theorem again_eq_false {μ : σ → ℕ} (hμ : ∀ s s', body s = .ok s' → again s' = true → μ s' < μ s) (hn : μ s ≤ n)
    (h : run body again n s = .ok r) : again r = false := by
  induction n generalizing s with
  | zero =>
    apply Bool.eq_false_iff.mpr
    intro hagain
    have := hμ s r h hagain
    omega
  | succ n ih =>
    cases hbody : body s with
    | error e =>
      rw [run_succ_error hbody] at h
      cases h
    | ok s' =>
      rw [run_succ_ok hbody] at h
      split_ifs at h with hagain
      · have := hμ s s' hbody hagain
        exact ih (by omega) h
      · cases h
        exact Bool.eq_false_iff.mpr hagain

/-- What every round does from the invariant relates each state to the next one. -/
theorem isChain_rounds {Inv : σ → Prop} {R : σ → σ → Prop} (hstep : ∀ s s', Inv s → body s = .ok s' → R s s')
    (hinv : ∀ s s', Inv s → body s = .ok s' → again s' = true → Inv s') (h0 : Inv s) (n : ℕ) :
    List.IsChain R (s :: rounds body again n s) := by
  induction n generalizing s with
  | zero =>
    unfold rounds
    cases hbody : body s with
    | error e => exact .singleton s
    | ok s' => exact .cons_cons (hstep s s' h0 hbody) (.singleton s')
  | succ n ih =>
    cases hbody : body s with
    | error e =>
      rw [rounds_succ_error hbody]
      exact .singleton s
    | ok s' =>
      rw [rounds_succ_ok hbody]
      split_ifs with hagain
      · exact .cons_cons (hstep s s' h0 hbody) (ih (hinv s s' h0 hbody hagain))
      · exact .cons_cons (hstep s s' h0 hbody) (.singleton s')

theorem isChain_body (body : σ → Except ε σ) (again : σ → Bool) (n : ℕ) (s : σ) :
    List.IsChain (fun a b => body a = .ok b) (s :: rounds body again n s) :=
  isChain_rounds (fun _ _ (_ : True) h => h) (fun _ _ (_ : True) _ _ => trivial) trivial n

theorem exists_rel_of_mem {R : σ → σ → Prop} {l : List σ} (hl : List.IsChain R (s :: l)) {b : σ} (hb : b ∈ l) :
    ∃ a, R a b := by
  induction l generalizing s with
  | nil => exact absurd hb List.not_mem_nil
  | cons a l ih =>
    rw [List.isChain_cons_cons] at hl
    rcases List.mem_cons.mp hb with rfl | hmem
    · exact ⟨s, hl.1⟩
    · exact ih hl.2 hmem

/-- The relation may use what holds of every state but the last one. -/
theorem isChain_imp_dropLast {R S : σ → σ → Prop} {l : List σ} (hl : List.IsChain R l)
    (h : ∀ a ∈ l.dropLast, ∀ b, R a b → S a b) : List.IsChain S l := by
  induction l with
  | nil => exact .nil
  | cons a l ih =>
    cases l with
    | nil => exact .singleton a
    | cons b l =>
      rw [List.isChain_cons_cons] at hl ⊢
      rw [List.dropLast_cons_cons] at h
      exact ⟨h a List.mem_cons_self b hl.1, ih hl.2 fun c hc => h c (List.mem_cons_of_mem _ hc)⟩

/-- The loop that does not fail ends in the last of the states. -/
theorem getLast?_rounds (h : run body again n s = .ok r) : (rounds body again n s).getLast? = some r := by
  induction n generalizing s with
  | zero =>
    unfold rounds
    rw [show body s = .ok r from h]
    rfl
  | succ n ih =>
    cases hbody : body s with
    | error e =>
      rw [run_succ_error hbody] at h
      cases h
    | ok s' =>
      rw [run_succ_ok hbody] at h
      rw [rounds_succ_ok hbody]
      split_ifs at h with hagain
      · rw [if_pos hagain, List.getLast?_cons, ih h]
        rfl
      · cases h
        rw [if_neg hagain]
        rfl

/-- A counter that grows by at most one in every step takes each value on its way. -/
theorem exists_count_step {R : σ → σ → Prop} {f : σ → ℕ} (hR : ∀ a b, R a b → f b ≤ f a + 1) {l : List σ}
    (hl : List.IsChain R (s :: l)) {z : σ} (hz : l.getLast? = some z) {k : ℕ} (hs : f s ≤ k) (hk : k < f z) :
    ∃ a, ∃ b ∈ l, R a b ∧ f a = k ∧ f b = k + 1 := by
  induction l generalizing s with
  | nil => cases hz
  | cons s' l ih =>
    rw [List.isChain_cons_cons] at hl
    have hstep := hR s s' hl.1
    rcases le_or_gt (f s') k with hle | hgt
    · cases l with
      | nil =>
        cases hz
        exact absurd hk (not_lt.mpr hle)
      | cons s'' l =>
        rw [List.getLast?_cons_cons] at hz
        obtain ⟨a, b, hb, hab⟩ := ih hl.2 hz hle
        exact ⟨a, b, List.mem_cons_of_mem _ hb, hab⟩
    · exact ⟨s, s', List.mem_cons_self, hl.1, by omega, by omega⟩

end DoWhile
