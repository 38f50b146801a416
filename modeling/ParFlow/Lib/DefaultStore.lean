import Mathlib.Data.List.Pairwise
import Mathlib.Logic.Function.Basic

/-! A store of texts that is asked for values. A key that is missing is given the text of the default, so that later
questions about it are answered from the store too. -/

namespace DefaultStore

variable {κ τ ι β : Type} [DecidableEq κ]

abbrev Store (κ τ : Type) := κ → Option τ

structure Query (κ ι β : Type) where
  kind : ι
  key : κ
  default : β

/-- How the values of each kind are read and written. -/
structure Format (ι τ β : Type) where
  read : ι → τ → Option β
  text : ι → β → τ

section Runs

variable (F : Format ι τ β)

/-- The store gives the value for the query, and is left as the second store. -/
inductive Answers : Store κ τ → Query κ ι β → β → Store κ τ → Prop where
  | stored {s : Store κ τ} {q : Query κ ι β} {text : τ} {v : β} (hkey : s q.key = some text)
      (hread : F.read q.kind text = some v) : Answers s q v s
  | missing {s : Store κ τ} {q : Query κ ι β} (hkey : s q.key = none) :
      Answers s q q.default (Function.update s q.key (some (F.text q.kind q.default)))

/-- The default of the query is what its text is read as. -/
def Keeps (q : Query κ ι β) : Prop := F.read q.kind (F.text q.kind q.default) = some q.default

/-- The questions of a run with their answers. Each question is allowed in the store it finds. -/
inductive Run (allowed : Store κ τ → Query κ ι β → Prop) (s₀ : Store κ τ) : List (Query κ ι β × β) → Store κ τ → Prop where
  | start : Run allowed s₀ [] s₀
  | ask {history : List (Query κ ι β × β)} {s s' : Store κ τ} {q : Query κ ι β} {v : β} (h : Run allowed s₀ history s)
      (hallowed : allowed s q) (hask : Answers F s q v s') : Run allowed s₀ (history ++ [(q, v)]) s'

/-- A missing key is asked for with a default that its text keeps. -/
def KeepsMissing (s : Store κ τ) (q : Query κ ι β) : Prop := s q.key = none → Keeps F q

end Runs

/-- Questions of one kind about one key have one answer. -/
def Stable (history : List (Query κ ι β × β)) : Prop :=
  ∀ a ∈ history, ∀ b ∈ history, a.1.kind = b.1.kind → a.1.key = b.1.key → a.2 = b.2

/-- The first question about a key is answered from the store at the start, or by its own default. -/
def FirstAnswered (F : Format ι τ β) (s₀ : Store κ τ) (history : List (Query κ ι β × β)) : Prop :=
  ∀ before a after, history = before ++ a :: after → (∀ b ∈ before, b.1.key ≠ a.1.key) →
    match s₀ a.1.key with
    | some text => F.read a.1.kind text = some a.2
    | none => a.2 = a.1.default

section Answers

variable {F : Format ι τ β} {s s' s₀ : Store κ τ} {q : Query κ ι β} {v : β} {history : List (Query κ ι β × β)}
  {allowed : Store κ τ → Query κ ι β → Prop}

/-- What a question leaves of the texts that were stored. -/
theorem Answers.kept (h : Answers F s q v s') {k : κ} {text : τ} (hk : s k = some text) : s' k = some text := by
  cases h with
  | stored hkey hread => exact hk
  | missing hkey =>
    have hne : k ≠ q.key := by
      intro heq
      rw [heq, hkey] at hk
      cases hk
    rw [Function.update_of_ne hne, hk]

theorem Answers.other (h : Answers F s q v s') {k : κ} (hne : k ≠ q.key) : s' k = s k := by
  cases h with
  | stored hkey hread => rfl
  | missing hkey => exact Function.update_of_ne hne _ _

/-- The answer can be read again from the store that the question leaves. -/
theorem Answers.readable (h : Answers F s q v s') (hkeeps : KeepsMissing F s q) :
    ∃ text, s' q.key = some text ∧ F.read q.kind text = some v := by
  cases h with
  | stored hkey hread => exact ⟨_, hkey, hread⟩
  | missing hkey => exact ⟨_, Function.update_self _ _ _, hkeeps hkey⟩

/-- Along a run every answer given so far can be read from the store, which differs from the first one only at keys
that were asked for. -/
theorem Run.readable (h : Run F allowed s₀ history s) (hallowed : ∀ s q, allowed s q → KeepsMissing F s q) :
    (∀ a ∈ history, ∃ text, s a.1.key = some text ∧ F.read a.1.kind text = some a.2) ∧
      ∀ k, (∀ a ∈ history, a.1.key ≠ k) → s k = s₀ k := by
  induction h with
  | start => exact ⟨fun a ha => absurd ha List.not_mem_nil, fun k _ => rfl⟩
  | @ask history s s' q v h hask hans ih =>
    obtain ⟨hread, hother⟩ := ih
    constructor
    · intro a ha
      rcases List.mem_append.mp ha with ha | ha
      · obtain ⟨text, hkey, htext⟩ := hread a ha
        exact ⟨text, hans.kept hkey, htext⟩
      · rw [List.eq_of_mem_singleton ha]
        exact hans.readable (hallowed s q hask)
    · intro k hk
      have hne : q.key ≠ k := hk (q, v) (by simp)
      rw [hans.other hne.symm]
      exact hother k fun a ha => hk a (List.mem_append_left _ ha)

theorem Run.stable (h : Run F allowed s₀ history s) (hallowed : ∀ s q, allowed s q → KeepsMissing F s q) :
    Stable history := by
  obtain ⟨hread, -⟩ := h.readable hallowed
  intro a ha b hb hkind hkey
  obtain ⟨text, htext, hvalue⟩ := hread a ha
  obtain ⟨text', htext', hvalue'⟩ := hread b hb
  rw [← hkey, htext, Option.some.injEq] at htext'
  rw [← hkind, ← htext', hvalue, Option.some.injEq] at hvalue'
  exact hvalue'

theorem Run.firstAnswered (h : Run F allowed s₀ history s) (hallowed : ∀ s q, allowed s q → KeepsMissing F s q) :
    FirstAnswered F s₀ history := by
  induction h with
  | start =>
    intro before a after heq
    exact absurd heq.symm (List.append_ne_nil_of_right_ne_nil _ (List.cons_ne_nil _ _))
  | @ask history s s' q v h hask hans ih =>
    intro before a after heq hbefore
    rcases List.eq_nil_or_concat after with rfl | ⟨after, c, rfl⟩
    · -- the last question is the first one about its key
      obtain ⟨rfl, hlast⟩ := List.append_inj' heq rfl
      obtain rfl := List.singleton_inj.mp hlast
      have hstart : s q.key = s₀ q.key := (h.readable hallowed).2 q.key hbefore
      cases hans with
      | stored hkey hread => rw [← hstart, hkey]; exact hread
      | missing hkey => rw [← hstart, hkey]
    · have hinit : history = before ++ a :: after := by
        have heq' : history ++ [(q, v)] = (before ++ a :: after) ++ [c] := by simpa using heq
        exact (List.append_inj' heq' rfl).1
      exact ih before a after hinit hbefore

end Answers

end DefaultStore
