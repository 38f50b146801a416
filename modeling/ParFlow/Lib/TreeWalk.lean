import ParFlow.Lib.FuelRun

/-! Walks over a tree without recursion: a cursor goes down to a child and back up through
an explicit path, and undoes on the way up what it did to its position on the way down.
Such a walk produces what the recursive traversal to a given depth produces. -/

namespace TreeWalk

open FuelRun

variable {N P β : Type}

/-- What a walk does at a node. `atNode` is used above the last level: its output if the children
are not to be visited. -/
structure Walk (N P β : Type) where
  arity : ℕ
  child : N → ℕ → N
  down : P → ℕ → P
  up : P → ℕ → P
  atLevel : N → P → List β
  atNode : N → P → Option (List β)

/-- The node and position, the number of children visited, and the same of the ancestors. -/
structure Cursor (N P : Type) where
  node : N
  visiting : ℕ
  path : List (N × ℕ)
  pos : P

namespace Walk

variable (w : Walk N P β)

def goDown (c : Cursor N P) : Cursor N P :=
  ⟨w.child c.node c.visiting, 0, (c.node, c.visiting) :: c.path, w.down c.pos c.visiting⟩

/-- Back to the parent, which has one more child visited. The walk ends above the root. -/
def goUp (c : Cursor N P) : Option (Cursor N P) :=
  match c.path with
  | [] => none
  | (x, m) :: path => some ⟨x, m + 1, path, w.up c.pos m⟩

def step (level : ℕ) (c : Cursor N P) : List β × Option (Cursor N P) :=
  if c.path.length = level then (w.atLevel c.node c.pos, w.goUp c)
  else
    match w.atNode c.node c.pos with
    | some out => (out, w.goUp c)
    | none => ([], if c.visiting < w.arity then some (w.goDown c) else w.goUp c)

/-- The outputs from a cursor to the end of the walk. -/
def run (level : ℕ) : ℕ → Option (Cursor N P) → Except Fault (List β)
  | _, none => .ok []
  | 0, some _ => .error .fuel
  | fuel + 1, some c => (run level fuel (w.step level c).2).map ((w.step level c).1 ++ ·)

def walk (level fuel : ℕ) (root : N) (pos : P) : Except Fault (List β) :=
  w.run level fuel (some ⟨root, 0, [], pos⟩)

/-- The recursive traversal to depth `n`. -/
def visits : ℕ → N → P → List β
  | 0, x, p => w.atLevel x p
  | n + 1, x, p =>
    match w.atNode x p with
    | some out => out
    | none => (List.range w.arity).flatMap fun m => visits n (w.child x m) (w.down p m)

/-- The position can be restored at each of the `n` levels below. -/
def Restores (good : ℕ → P → Prop) : Prop :=
  ∀ n p m, good (n + 1) p → good n (w.down p m) ∧ w.up (w.down p m) m = p

variable {w}

/-- After some steps the walk has produced `out` and goes on at `c'`. -/
def Produces (w : Walk N P β) (level : ℕ) (c : Option (Cursor N P)) (out : List β) (c' : Option (Cursor N P)) :
    Prop :=
  ∃ k, ∀ fuel, w.run level (fuel + k) c = (w.run level fuel c').map (out ++ ·)

theorem Produces.refl {level : ℕ} (c : Option (Cursor N P)) : Produces w level c [] c := by
  refine ⟨0, fun fuel => ?_⟩
  cases h : w.run level fuel c <;> simp [Except.map]

theorem Produces.trans {level : ℕ} {c₁ c₂ c₃ : Option (Cursor N P)} {out₁ out₂ : List β}
    (h₁ : Produces w level c₁ out₁ c₂) (h₂ : Produces w level c₂ out₂ c₃) :
    Produces w level c₁ (out₁ ++ out₂) c₃ := by
  obtain ⟨k₁, h₁⟩ := h₁
  obtain ⟨k₂, h₂⟩ := h₂
  refine ⟨k₂ + k₁, fun fuel => ?_⟩
  rw [← add_assoc, h₁, h₂]
  cases w.run level fuel c₃ <;> simp [Except.map]

theorem produces_step {level : ℕ} {c : Cursor N P} {out : List β} {c' : Option (Cursor N P)}
    (h : w.step level c = (out, c')) : Produces w level (some c) out c' := by
  refine ⟨1, fun fuel => ?_⟩
  rw [run, h]

/-- From a node not visited before, the walk produces the traversal below it and leaves upwards. -/
theorem produces_visits {good : ℕ → P → Prop} (hgood : w.Restores good) {level : ℕ} (n : ℕ) (x : N) (p : P)
    (path : List (N × ℕ)) (hp : good n p) (hl : path.length + n = level) :
    Produces w level (some ⟨x, 0, path, p⟩) (w.visits n x p) (w.goUp ⟨x, 0, path, p⟩) := by
  induction n generalizing x p path with
  | zero =>
    refine produces_step ?_
    simp only [step, visits]
    rw [if_pos (by omega)]
  | succ n ih =>
    have hlevel : ¬ path.length = level := by omega
    cases hat : w.atNode x p with
    | some out =>
      refine produces_step ?_
      simp only [step, visits, hat, if_neg hlevel]
    | none =>
      -- the children from `m` on
      have hchildren : ∀ k m, m + k = w.arity → Produces w level (some ⟨x, m, path, p⟩)
          ((List.range' m k).flatMap fun m => w.visits n (w.child x m) (w.down p m))
          (w.goUp ⟨x, w.arity, path, p⟩) := by
        intro k
        induction k with
        | zero =>
          intro m hm
          obtain rfl : m = w.arity := by omega
          refine produces_step ?_
          simp only [step, hat, if_neg hlevel, lt_irrefl, if_false, List.range'_zero, List.flatMap_nil]
        | succ k ihk =>
          intro m hm
          obtain ⟨hg, hup⟩ := hgood n p m hp
          have hdown : Produces w level (some ⟨x, m, path, p⟩) [] (some (w.goDown ⟨x, m, path, p⟩)) := by
            refine produces_step ?_
            simp only [step, hat, if_neg hlevel]
            rw [if_pos (by omega)]
          have hchild := ih (w.child x m) (w.down p m) ((x, m) :: path) hg (by simp only [List.length_cons]; omega)
          simp only [goUp, hup] at hchild
          rw [List.range'_succ, List.flatMap_cons]
          exact (hdown.trans hchild).trans (ihk (m + 1) (by omega))
      simp only [visits, hat, List.range_eq_range']
      exact hchildren w.arity 0 (by omega)

/-- The walk ends with the outputs of the recursive traversal. -/
theorem walk_returns {good : ℕ → P → Prop} (hgood : w.Restores good) (level : ℕ) (root : N) (pos : P)
    (hp : good level pos) :
    Returns (fun fuel => w.walk level fuel root pos) (w.visits level root pos) := by
  obtain ⟨k, hk⟩ := produces_visits hgood level root pos [] hp (Nat.zero_add level)
  refine returns_of_add k fun fuel => ?_
  rw [walk, hk, goUp]
  cases fuel <;> simp [run, Except.map]

end Walk

end TreeWalk
