import ParFlow.Lib.FuelRun
import ParFlow.Lib.AvlTree

/-! Height balanced trees (`hbt.h`, `hbt.c`). Elements live in a heap and are reached by
pointers; reading or writing through `NULL` or freed memory is a fault. A `while` loop
takes fuel and running out of it is an error of its own. The two mirror images of a
branch are one definition with a direction. -/

namespace ParFlow.Hbt

open FuelRun HeapTree

/-- `obj` and `balance` of an element. -/
structure Label (α : Type) where
  obj : α
  balance : ℤ
  deriving DecidableEq, Repr

/-- `HBT_element`. -/
abbrev Element (α : Type) := Node (Label α)

structure HBT (α : Type) where
  height : ℕ
  num : ℕ
  root : Option Addr
  mallocFlag : Bool
  heap : Heap (Label α)

variable {α : Type}

def hbtNew (mallocFlag : Bool) : HBT α := ⟨0, 0, none, mallocFlag, fun _ => none⟩

/-! ## Memory -/

def load (h : Heap (Label α)) : Option Addr → Except Fault (Element α)
  | none => .error .null
  | some a =>
    match h a with
    | none => .error .null
    | some n => .ok n

/-- Change the element at an address through `f`. -/
def modify (h : Heap (Label α)) (p : Option Addr) (f : Element α → Element α) :
    Except Fault (Heap (Label α)) :=
  match p with
  | none => .error .null
  | some a =>
    match h a with
    | none => .error .null
    | some n => .ok (Function.update h a (some (f n)))

/-- `LEFT(e) = p` or `RIGHT(e) = p`. -/
def setChild (h : Heap (Label α)) (e : Option Addr) (d : Dir) (p : Option Addr) :
    Except Fault (Heap (Label α)) := modify h e fun n => n.setChild d p

/-- `B(e) = b`. -/
def setB (h : Heap (Label α)) (e : Option Addr) (b : ℤ) : Except Fault (Heap (Label α)) :=
  modify h e fun n => n.setVal { n.val with balance := b }

/-- Point the father at a subtree; a father of `none` is the tree itself. -/
def setSon (T : HBT α) (father : Option Addr) (d : Dir) (p : Option Addr) :
    Except Fault (HBT α) :=
  match father with
  | none => .ok { T with root := p }
  | some _ => do
    let h ← setChild T.heap father d p
    .ok { T with heap := h }

/-! ## Lookup -/

section Compare

variable (compare : α → α → ℤ)

def lookupLoop (h : Heap (Label α)) (obj : α) : ℕ → Option Addr → Except Fault (Option α)
  | 0, _ => .error .fuel
  | _ + 1, none => .ok none
  | fuel + 1, some temp => do
    let n ← load h (some temp)
    let test := compare obj n.val.obj
    if test < 0 then lookupLoop h obj fuel n.left
    else if test > 0 then lookupLoop h obj fuel n.right
    else .ok (some n.val.obj)

def hbtLookup (fuel : ℕ) (obj : α) (T : HBT α) : Except Fault (Option α) :=
  lookupLoop compare T.heap obj fuel T.root

/-! ## Insertion -/

inductive InsertRet where
  | found | inserted | memoryError
  deriving DecidableEq, Repr

/-- Where the descent ends: at an equal key, or at the free side of `temp`, with the place
where rebalancing starts and its father. -/
inductive Place where
  | found
  | free (temp : Addr) (d : Dir) (rebalanceFather rebalance : Option Addr)
  deriving DecidableEq, Repr

def insertPlace (h : Heap (Label α)) (obj : α) :
    ℕ → Option Addr → Option Addr → Option Addr → Except Fault Place
  | 0, _, _, _ => .error .fuel
  | _ + 1, none, _, _ => .error .null
  | fuel + 1, some temp, rebalanceFather, rebalance => do
    let n ← load h (some temp)
    let test := compare obj n.val.obj
    if test = 0 then .ok .found
    else
      let d := if test < 0 then Dir.left else Dir.right
      match n.child d with
      | none => .ok (.free temp d rebalanceFather rebalance)
      | some inserted => do
        let m ← load h (some inserted)
        if m.val.balance ≠ 0 then insertPlace h obj fuel (some inserted) (some temp) (some inserted)
        else insertPlace h obj fuel (some inserted) rebalanceFather rebalance

/-- Set the balance factors on the path from `temp` down to the new element. -/
def adjustPath (obj : α) (inserted : Option Addr) :
    ℕ → Option Addr → Heap (Label α) → Except Fault (Heap (Label α))
  | 0, _, _ => .error .fuel
  | fuel + 1, temp, h =>
    if temp = inserted then .ok h
    else do
      let n ← load h temp
      let test := compare obj n.val.obj
      if test < 0 then do
        let h ← setB h temp Dir.left.sign
        adjustPath obj inserted fuel n.left h
      else if test > 0 then do
        let h ← setB h temp Dir.right.sign
        adjustPath obj inserted fuel n.right h
      else adjustPath obj inserted fuel temp h

/-! ## Rotations -/

/-- The single rotation of `e` and its son on side `d`. -/
def rotateSingle (h : Heap (Label α)) (d : Dir) (e son : Option Addr) :
    Except Fault (Heap (Label α)) := do
  let s ← load h son
  let h ← setChild h e d (s.child d.opp)
  setChild h son d.opp e

/-- The double rotation of an insertion, around the inner grandson `temp`. -/
def insertRotateDouble (h : Heap (Label α)) (d : Dir) (rebalance son temp : Option Addr) :
    Except Fault (Heap (Label α)) := do
  let t ← load h temp
  let h ← setChild h son d.opp (t.child d)
  let h ← setChild h temp d son
  let t ← load h temp
  let h ← setChild h rebalance d (t.child d.opp)
  setChild h temp d.opp rebalance

def insertDoubleBalances (h : Heap (Label α)) (d : Dir) (rebalance son temp : Option Addr) :
    Except Fault (Heap (Label α)) := do
  let t ← load h temp
  let h ← setB h rebalance (if t.val.balance = d.sign then -d.sign else 0)
  let h ← setB h son (if t.val.balance = d.sign ∨ t.val.balance = 0 then 0 else d.sign)
  setB h temp 0

/-- The rotation at `rebalance`, whose side `d` has become too high; returns the new root of the
subtree. When the son is balanced nothing is rotated and `temp` is still the new element. -/
def insertRotate (h : Heap (Label α)) (d : Dir) (rebalance rebalanceSon inserted : Option Addr) :
    Except Fault (Heap (Label α) × Option Addr) := do
  let s ← load h rebalanceSon
  if s.val.balance = d.sign then do
    let h ← rotateSingle h d rebalance rebalanceSon
    let h ← setB h rebalanceSon 0
    let h ← setB h rebalance 0
    .ok (h, rebalanceSon)
  else if s.val.balance = -d.sign then do
    let temp := s.child d.opp
    let h ← insertRotateDouble h d rebalance rebalanceSon temp
    let h ← insertDoubleBalances h d rebalance rebalanceSon temp
    .ok (h, temp)
  else .ok (h, inserted)

/-- The one place where rebalancing might be needed. -/
def insertRebalance (T : HBT α) (d : Dir)
    (rebalanceFather rebalance rebalanceSon inserted : Option Addr) : Except Fault (HBT α) := do
  let r ← load T.heap rebalance
  if r.val.balance = 0 then do
    let h ← setB T.heap rebalance d.sign
    .ok { T with heap := h, height := T.height + 1 }
  else if r.val.balance = -d.sign then do
    let h ← setB T.heap rebalance 0
    .ok { T with heap := h }
  else do
    let (h, temp) ← insertRotate T.heap d rebalance rebalanceSon inserted
    match rebalanceFather with
    | none => .ok { T with heap := h, root := temp }
    | some _ => do
      let f ← load h rebalanceFather
      setSon { T with heap := h } rebalanceFather (if rebalance = f.right then .right else .left) temp

def newElement (h : Heap (Label α)) (a : Addr) (obj : α) : Heap (Label α) :=
  Function.update h a (some ⟨⟨obj, 0⟩, none, none⟩)

/-- `cell` is what the allocation of the new element returns; `none` is out of memory. -/
def hbtInsert (fuel : ℕ) (cell : Option Addr) (obj : α) (T : HBT α) :
    Except Fault (HBT α × InsertRet) :=
  match T.root with
  | none =>
    match cell with
    | none => .ok (T, .memoryError)
    | some a =>
      .ok ({ T with root := some a, heap := newElement T.heap a obj, height := 1, num := 1 }, .inserted)
  | some root => do
    match ← insertPlace compare T.heap obj fuel (some root) none (some root) with
    | .found => .ok (T, .found)
    | .free temp d rebalanceFather rebalance =>
      match cell with
      | none => .ok (T, .memoryError)
      | some inserted => do
        let h ← setChild (newElement T.heap inserted obj) (some temp) d (some inserted)
        let r ← load h rebalance
        let d := if compare obj r.val.obj < 0 then Dir.left else Dir.right
        let h ← adjustPath compare obj (some inserted) fuel (r.child d) h
        let T ← insertRebalance { T with heap := h, num := T.num + 1 } d rebalanceFather rebalance
          (r.child d) (some inserted)
        .ok (T, .inserted)

/-! ## Deletion -/

/-- The elements above the current one and the directions taken there, innermost first. -/
abbrev Stack := List (Addr × Dir)

/-- The element below the top of the stack; `none` is the tree itself. -/
def father : Stack → Option Addr × Dir
  | [] => (none, .left)
  | (a, d) :: _ => (some a, d)

def searchPath (h : Heap (Label α)) (obj : α) :
    ℕ → Option Addr → Stack → Except Fault (Option Addr × Stack)
  | 0, _, _ => .error .fuel
  | _ + 1, none, stack => .ok (none, stack)
  | fuel + 1, some del, stack => do
    let n ← load h (some del)
    let test := compare obj n.val.obj
    if test = 0 then .ok (some del, stack)
    else
      let d := if test < 0 then Dir.left else Dir.right
      searchPath h obj fuel (n.child d) ((del, d) :: stack)

/-- `while (LEFT(successor) != NULL)`. -/
def successorPath (h : Heap (Label α)) :
    ℕ → Option Addr → Stack → Except Fault (Option Addr × Stack)
  | 0, _, _ => .error .fuel
  | _ + 1, none, _ => .error .null
  | fuel + 1, some successor, stack => do
    let s ← load h (some successor)
    match s.left with
    | none => .ok (some successor, stack)
    | some l => successorPath h fuel (some l) ((successor, .left) :: stack)

/-- Replace `del`, which has at most one son, by `p`. -/
def spliceOut (T : HBT α) (stack : Stack) (p : Option Addr) : Except Fault (HBT α) := do
  let T ← setSon T (father stack).1 (father stack).2 p
  .ok (if stack = [] then { T with height := T.height - 1 } else T)

/-- Take `del` out of the tree; returns the stack for rebalancing. -/
def unlink (fuel : ℕ) (T : HBT α) (del : Option Addr) (stack : Stack) :
    Except Fault (HBT α × Stack) := do
  let n ← load T.heap del
  match n.right with
  | none => do
    let T ← spliceOut T stack n.left
    .ok (T, stack)
  | some temp =>
    match n.left with
    | none => do
      let T ← spliceOut T stack n.right
      .ok (T, stack)
    | some _ => do
      let t ← load T.heap (some temp)
      match t.left with
      | none => do
        let h ← setChild T.heap (some temp) .left n.left
        let T ← setSon { T with heap := h } (father stack).1 (father stack).2 (some temp)
        let h ← setB T.heap (some temp) n.val.balance
        .ok ({ T with heap := h }, (temp, .right) :: stack)
      | some l => do
        let (successor, stack') ← successorPath T.heap fuel (some l) ((temp, .right) :: stack)
        let h ← setChild T.heap successor .left n.left
        let s ← load h successor
        let h ← setChild h (father stack').1 .left s.right
        let h ← setChild h successor .right n.right
        let T ← setSon { T with heap := h } (father stack).1 (father stack).2 successor
        let h ← setB T.heap successor n.val.balance
        .ok ({ T with heap := h }, stack')

/-- The double rotation of a deletion, around the inner grandson. -/
def deleteRotateDouble (h : Heap (Label α)) (dir : Dir) (current son grandson : Option Addr) :
    Except Fault (Heap (Label α)) := do
  let g ← load h grandson
  let h ← setChild h current dir.opp (g.child dir)
  let h ← setChild h son dir (g.child dir.opp)
  let h ← setChild h grandson dir current
  setChild h grandson dir.opp son

/-- The balance of the grandson itself is left as it is. -/
def deleteDoubleBalances (h : Heap (Label α)) (dir : Dir) (current son grandson : Option Addr) :
    Except Fault (Heap (Label α)) := do
  let g ← load h grandson
  let h ← setB h son (if g.val.balance = dir.sign then -dir.sign else 0)
  setB h current (if g.val.balance = 0 ∨ g.val.balance = dir.sign then 0 else dir.sign)

/-- One turn of the rebalancing loop at a node that lost height on side `dir`: the new heap, the
new root of the subtree when it was rotated, and whether the walk is done. -/
def rebalanceAt (h : Heap (Label α)) (current : Addr) (dir : Dir) :
    Except Fault (Heap (Label α) × Option (Option Addr) × Bool) := do
  let c ← load h (some current)
  if c.val.balance = 0 then do
    let h ← setB h (some current) (-dir.sign)
    .ok (h, none, true)
  else if c.val.balance = dir.sign then do
    let h ← setB h (some current) 0
    .ok (h, none, false)
  else do
    let son := c.child dir.opp
    let s ← load h son
    if s.val.balance = 0 then do
      let h ← rotateSingle h dir.opp (some current) son
      let h ← setB h son dir.sign
      .ok (h, some son, true)
    else if s.val.balance = -dir.sign then do
      let h ← rotateSingle h dir.opp (some current) son
      let h ← setB h son 0
      let h ← setB h (some current) 0
      .ok (h, some son, false)
    else do
      let grandson := s.child dir
      let h ← deleteRotateDouble h dir (some current) son grandson
      let h ← deleteDoubleBalances h dir (some current) son grandson
      .ok (h, some grandson, false)

/-- Walk up the stack; the tree loses height when its top element does. -/
def rebalanceStack : Stack → HBT α → Except Fault (HBT α)
  | [], T => .ok T
  | (current, dir) :: rest, T => do
    let (h, top, done) ← rebalanceAt T.heap current dir
    let T := { T with heap := h, height := if done = false ∧ rest = [] then T.height - 1 else T.height }
    let T ← match top with
      | none => .ok T
      | some son => setSon T (father rest).1 (father rest).2 son
    if done then .ok T else rebalanceStack rest T

inductive DeleteRet (α : Type) where
  | notFound | deleted
  | object (obj : α)
  deriving DecidableEq, Repr

def freeElement (h : Heap (Label α)) : Option Addr → Heap (Label α)
  | none => h
  | some a => Function.update h a none

/-- The null pointer returned for an absent key is `HBT_NOT_FOUND`. -/
def hbtDelete (fuel : ℕ) (obj : α) (T : HBT α) : Except Fault (HBT α × DeleteRet α) := do
  let (del, stack) ← searchPath compare T.heap obj fuel T.root []
  match del with
  | none => .ok (T, .notFound)
  | some _ => do
    let (T, stack) ← unlink fuel T del stack
    let T ← rebalanceStack stack T
    let d ← load T.heap del
    .ok ({ T with heap := freeElement T.heap del, num := T.num - 1 },
      if T.mallocFlag then .object d.val.obj else .deleted)

end Compare

end ParFlow.Hbt

/-! The other walks of `hbt.c`: replacing the object under a key, and the object that follows a key in order. -/

namespace ParFlow.Hbt

open FuelRun HeapTree

variable {α : Type} (compare : α → α → ℤ)

/-! ## Replacing -/

/-- The search for the object to be replaced. At an equal key `temp` stays where it is. -/
def replaceLoop (h : Heap (Label α)) (obj : α) : ℕ → Option Addr → Bool → Except Fault (Option Addr × Bool)
  | 0, _, _ => .error .fuel
  | _ + 1, none, found => .ok (none, found)
  | fuel + 1, some temp, found => do
    let n ← load h (some temp)
    let test := compare obj n.val.obj
    if test < 0 then replaceLoop h obj fuel n.left found
    else if test > 0 then replaceLoop h obj fuel n.right found
    else replaceLoop h obj fuel (some temp) true

/-- Returns the element whose object was replaced. -/
def hbtReplace (fuel : ℕ) (obj : α) (T : HBT α) : Except Fault (HBT α × Option Addr) := do
  let (temp, found) ← replaceLoop compare T.heap obj fuel T.root false
  if found then do
    let h ← modify T.heap temp fun n => n.setVal { n.val with obj := obj }
    .ok ({ T with heap := h }, temp)
  else .ok (T, none)

/-! ## Successors -/

/-- `while (LEFT(temp)) temp = LEFT(temp)`, and then the object of `temp`. -/
def firstObj (h : Heap (Label α)) : ℕ → Option Addr → Except Fault α
  | 0, _ => .error .fuel
  | fuel + 1, temp => do
    let n ← load h temp
    match n.left with
    | none => .ok n.val.obj
    | some l => firstObj h fuel (some l)

/-- The last element on the stack that was left to the left. -/
def climb (stack : Stack) : Option Addr :=
  ((stack.dropWhile fun f => f.2 = .right).head?).map Prod.fst

/-- An `obj` of `none` asks for the first object. The search keeps its path on the stack as that of `HBT_delete`
does. -/
def hbtSuccessor (fuel : ℕ) (obj : Option α) (T : HBT α) : Except Fault (Option α) :=
  match T.root with
  | none => .ok none
  | some root =>
    match obj with
    | none => do
      let first ← firstObj T.heap fuel (some root)
      .ok (some first)
    | some obj => do
      let (temp, stack) ← searchPath compare T.heap obj fuel (some root) []
      match temp with
      | none => .ok none
      | some temp => do
        let n ← load T.heap (some temp)
        match n.right with
        | some right => do
          let next ← firstObj T.heap fuel (some right)
          .ok (some next)
        | none =>
          match climb stack with
          | none => .ok none
          | some above => do
            let m ← load T.heap (some above)
            .ok (some m.val.obj)

end ParFlow.Hbt
