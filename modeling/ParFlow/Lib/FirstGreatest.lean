import Mathlib

/-! The first greatest element of a list among those with a property, as a loop finds it that keeps the best one so far. -/

namespace FirstGreatest

variable {ι : Type*} {K : Type*} [LinearOrder K]

section

variable (p : ι → Prop) [DecidablePred p] (key : ι → K)

/-- An element replaces the best one only if it is greater. -/
def step (best : Option ι) (x : ι) : Option ι := if p x ∧ ∀ y ∈ best, key y < key x then some x else best

def firstGreatest (l : List ι) : Option ι := l.foldl (step p key) none

/-- What the loop has found in a list. -/
def Finds (l : List ι) : Option ι → Prop
  | none => ∀ x ∈ l, ¬ p x
  | some x => ∃ pre post, l = pre ++ x :: post ∧ p x ∧ (∀ y ∈ pre, p y → key y < key x) ∧ ∀ y ∈ post, p y → key y ≤ key x

end

variable {p : ι → Prop} [DecidablePred p] {key : ι → K} {l : List ι} {x : ι} {best : Option ι}

theorem Finds.step (h : Finds p key l best) (x : ι) : Finds p key (l ++ [x]) (step p key best x) := by
  unfold FirstGreatest.step
  cases best with
  | none =>
    by_cases hx : p x
    · rw [if_pos ⟨hx, fun _ hy => absurd hy (Option.not_mem_none _)⟩]
      exact ⟨l, [], rfl, hx, fun y hy hp => absurd hp (h y hy), fun y hy => absurd hy List.not_mem_nil⟩
    · rw [if_neg fun hc => hx hc.1]
      exact List.forall_mem_append.mpr ⟨h, by simpa using hx⟩
  | some b =>
    obtain ⟨pre, post, rfl, hb, hpre, hpost⟩ := h
    by_cases hx : p x ∧ key b < key x
    · rw [if_pos ⟨hx.1, fun y hy => by rw [← Option.some.inj hy]; exact hx.2⟩]
      refine ⟨pre ++ b :: post, [], rfl, hx.1, fun y hy hp => ?_, fun y hy => absurd hy List.not_mem_nil⟩
      rcases List.mem_append.mp hy with hy | hy
      · exact (hpre y hy hp).trans hx.2
      · rcases List.mem_cons.mp hy with rfl | hy
        · exact hx.2
        · exact (hpost y hy hp).trans_lt hx.2
    · rw [if_neg fun hc => hx ⟨hc.1, hc.2 b rfl⟩]
      refine ⟨pre, post ++ [x], by simp, hb, hpre, fun y hy hp => ?_⟩
      rcases List.mem_append.mp hy with hy | hy
      · exact hpost y hy hp
      · rw [List.mem_singleton] at hy
        subst hy
        exact not_lt.mp fun hlt => hx ⟨hp, hlt⟩

theorem finds_firstGreatest (l : List ι) : Finds p key l (firstGreatest p key l) := by
  unfold firstGreatest
  induction l using List.reverseRecOn with
  | nil => exact fun x hx => absurd hx List.not_mem_nil
  | append_singleton l x ih =>
    rw [List.foldl_append]
    exact ih.step x

theorem firstGreatest_isSome : (firstGreatest p key l).isSome ↔ ∃ x ∈ l, p x := by
  have h : Finds p key l (firstGreatest p key l) := finds_firstGreatest l
  cases hbest : firstGreatest p key l with
  | none =>
    rw [hbest] at h
    exact iff_of_false (by simp) fun ⟨x, hx, hp⟩ => h x hx hp
  | some b =>
    rw [hbest] at h
    obtain ⟨pre, post, rfl, hb, -⟩ := h
    exact iff_of_true rfl ⟨b, by simp, hb⟩

/-- `x` is the first of the greatest elements with the property, in the order `R` of the list. -/
structure IsFirstGreatest (p : ι → Prop) (key : ι → K) (R : ι → ι → Prop) (l : List ι) (x : ι) : Prop where
  mem : x ∈ l
  holds : p x
  le : ∀ y ∈ l, p y → key y ≤ key x
  first : ∀ y ∈ l, p y → key x ≤ key y → y = x ∨ R x y

theorem firstGreatest_isFirst {R : ι → ι → Prop} (hl : l.Pairwise R) (h : firstGreatest p key l = some x) :
    IsFirstGreatest p key R l x := by
  have hfinds : Finds p key l (firstGreatest p key l) := finds_firstGreatest l
  rw [h] at hfinds
  obtain ⟨pre, post, rfl, hx, hpre, hpost⟩ := hfinds
  have hafter := (List.pairwise_cons.mp (List.pairwise_append.mp hl).2.1).1
  refine ⟨by simp, hx, fun y hy hp => ?_, fun y hy hp hle => ?_⟩
  · rcases List.mem_append.mp hy with hy | hy
    · exact (hpre y hy hp).le
    · rcases List.mem_cons.mp hy with rfl | hy
      · exact le_rfl
      · exact hpost y hy hp
  · rcases List.mem_append.mp hy with hy | hy
    · exact absurd (hpre y hy hp) (not_lt.mpr hle)
    · exact (List.mem_cons.mp hy).imp_right (hafter y)

theorem firstGreatest_eq_some_iff {R : ι → ι → Prop} (hl : l.Pairwise R) (hR : ∀ a b, R a b → ¬ R b a) :
    firstGreatest p key l = some x ↔ IsFirstGreatest p key R l x := by
  refine ⟨firstGreatest_isFirst hl, fun hx => ?_⟩
  have hsome : (firstGreatest p key l).isSome ↔ ∃ x ∈ l, p x := firstGreatest_isSome
  obtain ⟨b, hb⟩ := Option.isSome_iff_exists.mp (hsome.mpr ⟨x, hx.mem, hx.holds⟩)
  have hb' := firstGreatest_isFirst hl hb
  rw [hb, Option.some.injEq]
  rcases hx.first b hb'.mem hb'.holds (hb'.le x hx.mem hx.holds) with h | h
  · exact h
  · rcases hb'.first x hx.mem hx.holds (hx.le b hb'.mem hb'.holds) with h' | h'
    · exact h'.symm
    · exact absurd h' (hR _ _ h)

end FirstGreatest
