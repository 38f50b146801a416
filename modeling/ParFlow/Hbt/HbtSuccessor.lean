import ParFlow.Hbt.HbtDelete
import ParFlow.Hbt.HbtDefs

/-! Runs of insertions, lookups and deletions on one tree. As long as every deletion is
safe the tree stays valid; a single unsafe one can corrupt it or follow a null pointer. -/

namespace ParFlow.Hbt

open FuelRun HeapTree HTree

variable {α : Type} {κ : Type} [LinearOrder κ]

/-- The trees reached from a new one by calls that return, with deletions where `allowed`. -/
inductive Reachable (compare : α → α → ℤ) (allowed : HBT α → α → Prop) : HBT α → Prop where
  | new (mallocFlag : Bool) : Reachable compare allowed (hbtNew mallocFlag)
  | insert {T T' : HBT α} {x : α} {cell : Option Addr} {ret : InsertRet} (h : Reachable compare allowed T)
      (hcell : ∀ a, cell = some a → T.heap a = none)
      (hret : Returns (fun fuel => hbtInsert compare fuel cell x T) (T', ret)) : Reachable compare allowed T'
  | lookup {T : HBT α} {x : α} {ret : Option α} (h : Reachable compare allowed T)
      (hret : Returns (fun fuel => hbtLookup compare fuel x T) ret) : Reachable compare allowed T
  | delete {T T' : HBT α} {x : α} {ret : DeleteRet α} (h : Reachable compare allowed T) (hx : allowed T x)
      (hret : Returns (fun fuel => hbtDelete compare fuel x T) (T', ret)) : Reachable compare allowed T'

/-- Every state of a run of safe calls is valid. -/
theorem Reachable.exists_valid {compare : α → α → ℤ} {key : α → κ} (hcmp : Compares compare key) {T : HBT α}
    (h : Reachable compare (SafeDelete compare) T) : ∃ t, Valid key T t := by
  induction h with
  | new mallocFlag => exact ⟨.nil, valid_new mallocFlag⟩
  | @insert T T' x cell ret _ hcell hret ih =>
    obtain ⟨t, hv⟩ := ih
    obtain ⟨T₁, ret₁, hret₁, hspec⟩ := hbtInsert_spec (x := x) hcmp hv hcell
    obtain ⟨rfl, rfl⟩ := Prod.mk.inj (hret.unique hret₁)
    rcases hspec with ⟨-, -, rfl⟩ | ⟨-, ⟨-, -, rfl⟩ | ⟨-, t', -, -, hv', -⟩⟩
    · exact ⟨t, hv⟩
    · exact ⟨t, hv⟩
    · exact ⟨t', hv'⟩
  | lookup _ _ ih => exact ih
  | @delete T T' x ret _ hx hret ih =>
    obtain ⟨t, hv⟩ := ih
    obtain ⟨-, -, T₁, t₁, ret₁, hret₁, hv₁, -⟩ := hbtDelete_right hcmp hv hx
    obtain ⟨rfl, -⟩ := Prod.mk.inj (hret.unique hret₁)
    exact ⟨t₁, hv₁⟩

/-- In a run whose deletions are all safe the tree is valid in every state, and every further safe
deletion removes exactly the element with its key. -/
theorem reachable_deletesRight (compare : α → α → ℤ) (key : α → κ) (hcmp : Compares compare key) (T : HBT α)
    (h : Reachable compare (SafeDelete compare) T) :
    (∃ t, Valid key T t) ∧ ∀ x, SafeDelete compare T x → DeletesRight compare key T x := by
  obtain ⟨t, hv⟩ := h.exists_valid hcmp
  exact ⟨⟨t, hv⟩, fun x hx => hbtDelete_right hcmp hv hx⟩

/-! ## Trees of integers -/

theorem Reachable.insertInt {allowed : HBT ℤ → ℤ → Prop} {T T' : HBT ℤ} (a : Addr) (x : ℤ)
    (h : Reachable intCompare allowed T) (ha : T.heap a = none)
    (hret : ∀ n, hbtInsert intCompare (n + 8) (some a) x T = .ok (T', .inserted)) :
    Reachable intCompare allowed T' := by
  have hcell : ∀ b, some a = some b → T.heap b = none := by
    rintro b ⟨⟩
    exact ha
  exact h.insert hcell (returns_of_add 8 hret)

theorem reachable_two_one {allowed : HBT ℤ → ℤ → Prop} :
    Reachable intCompare allowed (buildInts [2, 1]) :=
  ((Reachable.new false).insertInt 0 2 rfl fun _ => rfl).insertInt 1 1 rfl fun _ => rfl

/-- Deleting the leaf of a tree of two elements is safe. -/
theorem two_one_deletesRight : DeletesRight intCompare id (buildInts [2, 1]) 1 := by
  refine (reachable_deletesRight intCompare id intCompare_compares _ reachable_two_one).2 1
    ⟨.node 0 (.node 1 .nil ⟨1, 0⟩ .nil) ⟨2, -1⟩ .nil, ⟨rfl, ⟨rfl, ⟨rfl, trivial, trivial⟩, trivial⟩, by decide⟩, ?_⟩
  show Clean _
  decide

theorem reachable_four {allowed : HBT ℤ → ℤ → Prop} :
    Reachable intCompare allowed (buildInts [2, 1, 4, 3]) :=
  (reachable_two_one.insertInt 2 4 rfl fun _ => rfl).insertInt 3 3 rfl fun _ => rfl

/-- Deleting 2 from the tree of 2, 1, 4, 3 follows the null left link of 4. -/
theorem four_delete_null (n : ℕ) : hbtDelete intCompare (n + 8) 2 (buildInts [2, 1, 4, 3]) = .error .null := rfl

theorem not_all_deletesRight : ¬ ∀ T : HBT ℤ, Reachable intCompare (fun _ _ => True) T →
    ∀ x, DeletesRight intCompare id T x := by
  intro h
  obtain ⟨-, -, T', -, ret, ⟨N, hN⟩, -⟩ := h _ reachable_four 2
  have heq := hN (N + 8) (by omega)
  simp only [four_delete_null] at heq
  exact absurd heq (by simp)

/-- Deleting 3 from the tree of 5, 2, 10, 3, 7, 11, 6 makes 7 the root of two trees of equal height
and leaves its balance factor at -1. -/
example : ((hbtDelete intCompare 8 3 (buildInts [5, 2, 10, 3, 7, 11, 6])).toOption.bind fun r => r.1.heap 4) =
    some ⟨⟨7, -1⟩, some 0, some 2⟩ := rfl

end ParFlow.Hbt

/-! `HBT_successor` returns the next object in order, so that repeated calls list all objects. -/

namespace ParFlow.Hbt

open FuelRun HeapTree HTree

variable {α : Type} {κ : Type} [LinearOrder κ] {compare : α → α → ℤ} {key : α → κ}

/-! ## The walks -/

section Walks

variable {h : Heap (Label α)} {t : ElementTree α} {C : List (ElementFrame α)}

theorem firstObj_spec (hr : Rep h t) (ht : t ≠ .nil) :
    ∃ o, (inOrder t).head? = some o ∧ ∀ fuel, t.height ≤ fuel → firstObj h fuel t.ptr = .ok o := by
  induction t with
  | nil => exact absurd rfl ht
  | node a l v r ihl _ =>
    obtain ⟨ha, hl, -⟩ := hr
    have hpos : ∀ fuel, (node a l v r).height ≤ fuel → ∃ n, fuel = n + 1 ∧ l.height ≤ n := by
      intro fuel hf
      rw [height] at hf
      exact ⟨fuel - 1, by omega, by omega⟩
    cases hleft : l with
    | nil =>
      subst hleft
      use v.obj
      constructor
      · rfl
      · intro fuel hf
        obtain ⟨n, rfl, -⟩ := hpos fuel hf
        simp only [ptr_node, firstObj, load_eq ha, bind, Except.bind, ptr_nil]
    | node b l' w r' =>
      obtain ⟨o, ho, hrun⟩ := ihl hl (by rw [hleft]; exact fun hn => by cases hn)
      rw [← hleft]
      use o
      constructor
      · show (inOrder l ++ v.obj :: inOrder r).head? = some o
        rw [List.head?_append, ho, Option.some_or]
      · intro fuel hf
        obtain ⟨n, rfl, hn⟩ := hpos fuel hf
        have hgo := hrun n hn
        rw [hleft, ptr_node] at hgo
        rw [hleft, ptr_node] at ha
        simp only [ptr_node, firstObj, load_eq ha, bind, Except.bind, hgo]

/-- The walk up the stack ends at the object that comes after the subtree. -/
theorem climb_spec {p : Option Addr} (hC : RepCtx h C p) :
    (climb (stackOf C) = none ∧ ctxAfter Label.obj C = []) ∨
      ∃ a n, climb (stackOf C) = some a ∧ h a = some n ∧ (ctxAfter Label.obj C).head? = some n.val.obj := by
  induction C generalizing p with
  | nil => exact Or.inl ⟨rfl, rfl⟩
  | cons F C ih =>
    obtain ⟨hF, -, hC⟩ := hC
    obtain ⟨d, a, v, sib⟩ := F
    cases d with
    | left =>
      right
      exact ⟨a, _, rfl, hF, by rw [Node.ofDir_val]; rfl⟩
    | right => exact ih hC

end Walks

/-! ## The next object -/

section Next

variable {T : HBT α} {t : ElementTree α} {x : α}

/-- In order, what comes after an object is what has a greater key. -/
theorem find?_greater {A B : List α} {o : α} (hs : (A ++ o :: B).Pairwise fun a b => key a < key b) :
    (A ++ o :: B).find? (fun o' => key o < key o') = B.head? := by
  obtain ⟨-, hright, hleft⟩ := List.pairwise_append.mp hs
  obtain ⟨hB, -⟩ := List.pairwise_cons.mp hright
  have hA : A.find? (fun o' => key o < key o') = none := by
    rw [List.find?_eq_none]
    intro o' ho' hlt
    exact lt_asymm (hleft o' ho' o List.mem_cons_self) (of_decide_eq_true hlt)
  rw [List.find?_append, hA, Option.none_or, List.find?_cons_of_neg (by simp)]
  cases B with
  | nil => rfl
  | cons b B => exact List.find?_cons_of_pos (decide_eq_true (hB b List.mem_cons_self))

/-- The call returns the first object with a greater key. -/
theorem hbtSuccessor_stored (hcmp : Compares compare key) (hv : Valid key T t) (hx : ∃ o ∈ inOrder t, key o = key x) :
    Returns (fun fuel => hbtSuccessor compare fuel (some x) T) ((inOrder t).find? fun o => key x < key o) := by
  obtain ⟨C, s, hpath, hplug, hC, -, hs⟩ := searchPath_spec compare x hv.stores.rep []
  have hstack : stackOf ([] : List (ElementFrame α)) = [] := rfl
  rw [List.append_nil, hstack] at hpath
  -- the search cannot leave the tree, for every object it leaves aside has another key
  obtain ⟨a, l, v, r, rfl, hval⟩ : ∃ a l v r, s = .node a l v r ∧ compare x v.obj = 0 := by
    rcases hs with rfl | hs
    · exfalso
      obtain ⟨o, ho, hk⟩ := hx
      have hsorted := hv.sorted
      rw [hplug] at ho hsorted
      obtain ⟨hbefore, hafter⟩ := toward_bounds hcmp hC hsorted
      rw [inOrder, elems_plug, List.mem_append, List.mem_append] at ho
      rcases ho with (ho | ho) | ho
      · exact (hbefore o ho).ne hk
      · exact absurd ho List.not_mem_nil
      · exact (hafter o ho).ne' hk
    · exact hs
  subst hplug
  obtain ⟨hctx, hrep⟩ := rep_plug.mp hv.stores.rep
  obtain ⟨ha, hl, hr⟩ := hrep
  have hsplit : inOrder (plug C (.node a l v r)) =
      (ctxBefore Label.obj C ++ inOrder l) ++ v.obj :: (inOrder r ++ ctxAfter Label.obj C) := by
    rw [inOrder, elems_plug]
    simp only [elems, List.append_assoc, List.cons_append]
  have hsorted := hv.sorted
  rw [hsplit] at hsorted
  have hkey : key x = key v.obj := (hcmp x v.obj).2.mp hval
  rw [hsplit, hkey, find?_greater hsorted]
  use (plug C (.node a l v r)).height + 1
  intro fuel hf
  have hheight : (node a l v r).height ≤ (plug C (.node a l v r)).height := by
    have h := le_ctxHeight C (node a l v r).height
    rw [height_plug]
    omega
  have hright : r.height ≤ fuel := by
    rw [height] at hheight
    omega
  obtain ⟨root, hroot⟩ : ∃ root, T.root = some root := by
    rw [hv.stores.root]
    apply Option.ne_none_iff_exists'.mp
    intro hnone
    rw [ptr_eq_none.mp hnone] at hsplit
    exact absurd hsplit.symm (by simp [elems])
  have hsearch := hpath fuel (by omega)
  rw [← hv.stores.root, hroot, ptr_node] at hsearch
  simp only [hbtSuccessor, hroot, hsearch, bind, Except.bind, load_eq ha]
  cases hnil : r with
  | node b l' w r' =>
    obtain ⟨o, ho, hrun⟩ := firstObj_spec hr (by rw [hnil]; exact fun hn => by cases hn)
    have hgo := hrun fuel hright
    rw [hnil, ptr_node] at hgo
    rw [← hnil, List.head?_append, ho, Option.some_or, hnil]
    simp only [ptr_node, hgo]
  | nil =>
    simp only [ptr_nil]
    rcases climb_spec hctx with ⟨hclimb, hafter⟩ | ⟨b, n, hclimb, hb, hhead⟩
    · rw [hclimb, hafter]
      rfl
    · rw [hclimb]
      simp only [load_eq hb]
      exact congrArg Except.ok hhead.symm

/-- Without an object the call returns the first one. -/
theorem hbtSuccessor_first (hv : Valid key T t) :
    Returns (fun fuel => hbtSuccessor compare fuel none T) (inOrder t).head? := by
  cases t with
  | nil =>
    have hroot : T.root = none := hv.stores.root
    use 0
    intro fuel _
    simp only [hbtSuccessor, hroot]
    rfl
  | node a l v r =>
    have hroot : T.root = some a := hv.stores.root
    obtain ⟨o, ho, hrun⟩ := firstObj_spec hv.stores.rep (by simp)
    use (node a l v r).height
    intro fuel hf
    have hgo := hrun fuel hf
    rw [ptr_node] at hgo
    simp only [hbtSuccessor, hroot, hgo, bind, Except.bind, ho]

end Next

/-! ## Listing all objects -/

/-- Calls that each start from the object returned by the one before, until none is returned. -/
inductive Lists (compare : α → α → ℤ) (T : HBT α) : Option α → List α → Prop where
  | done {obj : Option α} (h : Returns (fun fuel => hbtSuccessor compare fuel obj T) none) : Lists compare T obj []
  | next {obj : Option α} {o : α} {rest : List α} (h : Returns (fun fuel => hbtSuccessor compare fuel obj T) (some o))
      (hrest : Lists compare T (some o) rest) : Lists compare T obj (o :: rest)

section Listing

variable {T : HBT α} {t : ElementTree α}

theorem Lists.of_head (l : List α) {obj : Option α}
    (h : Returns (fun fuel => hbtSuccessor compare fuel obj T) l.head?)
    (hnext : ∀ A o B, l = A ++ o :: B → Returns (fun fuel => hbtSuccessor compare fuel (some o) T) B.head?) :
    Lists compare T obj l := by
  induction l generalizing obj with
  | nil => exact .done h
  | cons o rest ih =>
    apply Lists.next h
    apply ih
    · exact hnext [] o rest rfl
    · intro A o' B hl
      exact hnext (o :: A) o' B (by rw [hl]; rfl)

/-- For a stored key the call returns the object with the least stored key greater than it, and none exactly for the
maximum; the calls from none on list all objects in ascending order. -/
theorem successor_next (compare : α → α → ℤ) (key : α → κ) (hcmp : Compares compare key) (T : HBT α) (t : ElementTree α)
    (hv : Valid key T t) :
    (∀ x, (∃ o ∈ inOrder t, key o = key x) → ∃ next, Returns (fun fuel => hbtSuccessor compare fuel (some x) T) next ∧
        (next = none ↔ ∀ o ∈ inOrder t, key o ≤ key x) ∧
        ∀ o, next = some o → o ∈ inOrder t ∧ key x < key o ∧ ∀ o' ∈ inOrder t, key x < key o' → key o ≤ key o') ∧
      Lists compare T none (inOrder t) ∧ (inOrder t).Pairwise fun a b => key a < key b := by
  refine ⟨?_, ?_, hv.sorted⟩
  · intro x hx
    refine ⟨_, hbtSuccessor_stored hcmp hv hx, ?_, ?_⟩
    · rw [List.find?_eq_none]
      simp only [decide_eq_true_eq, not_lt]
    · intro o ho
      obtain ⟨hgreater, A, B, hsplit, hA⟩ := List.find?_eq_some_iff_append.mp ho
      have hsorted := hv.sorted
      rw [hsplit] at hsorted ⊢
      refine ⟨List.mem_append_right A List.mem_cons_self, of_decide_eq_true hgreater, ?_⟩
      intro o' ho' hlt
      rcases List.mem_append.mp ho' with ho' | ho'
      · exact absurd (hA o' ho') (by simp [hlt])
      · rcases List.mem_cons.mp ho' with rfl | ho'
        · exact le_rfl
        · exact ((List.pairwise_cons.mp (List.pairwise_append.mp hsorted).2.1).1 o' ho').le
  · apply Lists.of_head _ (hbtSuccessor_first hv)
    intro A o B hsplit
    have hsorted := hv.sorted
    have ho : o ∈ inOrder t := by
      rw [hsplit]
      exact List.mem_append_right A List.mem_cons_self
    have hret := hbtSuccessor_stored hcmp hv ⟨o, ho, rfl⟩
    rw [hsplit] at hsorted hret
    rwa [find?_greater hsorted] at hret

/-- The tree of 2, 1, 4 and 3. -/
def fourTree : ElementTree ℤ :=
  .node 0 (.node 1 .nil ⟨1, 0⟩ .nil) ⟨2, 1⟩ (.node 2 (.node 3 .nil ⟨3, 0⟩ .nil) ⟨4, -1⟩ .nil)

theorem valid_fourTree : Valid id (buildInts [2, 1, 4, 3]) fourTree where
  stores := ⟨rfl, ⟨rfl, ⟨rfl, trivial, trivial⟩, rfl, ⟨rfl, trivial, trivial⟩, trivial⟩, by decide⟩
  sorted := by decide
  balanced := by simp [fourTree, HeightBalanced, AvlBalanced, HTree.height]
  num := rfl
  height := rfl

theorem fourTree_successor_next : (∃ next, Returns (fun fuel => hbtSuccessor intCompare fuel (some 2) (buildInts [2, 1, 4, 3]))
      next ∧ (next = none ↔ ∀ o ∈ inOrder fourTree, o ≤ 2)) ∧
    Lists intCompare (buildInts [2, 1, 4, 3]) none [1, 2, 3, 4] := by
  obtain ⟨hnext, hlists, -⟩ := successor_next intCompare id intCompare_compares _ _ valid_fourTree
  obtain ⟨next, hret, hnone, -⟩ := hnext 2 ⟨2, by decide, rfl⟩
  exact ⟨⟨next, hret, hnone⟩, hlists⟩

end Listing

end ParFlow.Hbt
