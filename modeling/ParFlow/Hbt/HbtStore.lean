import Mathlib.Order.Basic
import ParFlow.Lib.AvlTree
import ParFlow.Hbt.HbtDefs

/-! The tree that an `HBT` stores, what its fields promise about it, and what the memory
operations do to a stored subtree under a path. -/

namespace ParFlow.Hbt

open FuelRun HeapTree HTree

variable {α : Type}

abbrev ElementTree (α : Type) := HTree (Label α)

abbrev ElementFrame (α : Type) := Frame (Label α)

/-- The elements of a tree in order. -/
abbrev inOrder (t : ElementTree α) : List α := elems Label.obj t

abbrev HeightBalanced (t : ElementTree α) : Prop := AvlBalanced Label.balance t

abbrev rootB (t : ElementTree α) : ℤ := rootBal Label.balance t

/-- The stack that a walk down a path leaves behind. -/
def stackOf (C : List (ElementFrame α)) : Stack := C.map fun F => (F.addr, F.dir)

structure Stores (T : HBT α) (t : ElementTree α) : Prop where
  root : T.root = t.ptr
  rep : Rep T.heap t
  nodup : t.addrs.Nodup

/-- The compare method orders objects by their keys. -/
def Compares {κ : Type} [LinearOrder κ] (compare : α → α → ℤ) (key : α → κ) : Prop :=
  ∀ a b, (compare a b < 0 ↔ key a < key b) ∧ (compare a b = 0 ↔ key a = key b)

/-- The tree is a search tree with true balance factors, and the header counts its elements
and holds its height. -/
structure Valid {κ : Type} [LinearOrder κ] (key : α → κ) (T : HBT α) (t : ElementTree α) : Prop where
  stores : Stores T t
  sorted : (inOrder t).Pairwise fun a b => key a < key b
  balanced : HeightBalanced t
  num : T.num = (inOrder t).length
  height : T.height = t.height

/-! ## Memory operations -/

section Memory

variable {h : Heap (Label α)} {a : Addr} {n : Element α}

theorem load_eq (ha : h a = some n) : load h (some a) = .ok n := by
  simp only [load, ha]

theorem modify_ok (ha : h a = some n) (f : Element α → Element α) :
    ∃ h', modify h (some a) f = .ok h' ∧ h' a = some (f n) ∧ ∀ e, e ≠ a → h' e = h e := by
  refine ⟨Function.update h a (some (f n)), ?_, Function.update_self _ _ _,
    fun e he => Function.update_of_ne he _ _⟩
  simp only [modify, ha]

theorem setChild_ok (ha : h a = some n) (d : Dir) (p : Option Addr) :
    ∃ h', setChild h (some a) d p = .ok h' ∧ h' a = some (n.setChild d p) ∧ ∀ e, e ≠ a → h' e = h e :=
  modify_ok ha _

def Label.withB (v : Label α) (b : ℤ) : Label α := { v with balance := b }

@[simp] theorem withB_balance (v : Label α) (b : ℤ) : (v.withB b).balance = b := rfl

@[simp] theorem withB_obj (v : Label α) (b : ℤ) : (v.withB b).obj = v.obj := rfl

theorem setB_ok {d : Dir} {v : Label α} {p q : Option Addr} (ha : h a = some (Node.ofDir d v p q))
    (b : ℤ) : ∃ h', setB h (some a) b = .ok h' ∧ h' a = some (Node.ofDir d (v.withB b) p q) ∧
      ∀ e, e ≠ a → h' e = h e := by
  obtain ⟨h', e, ha', ho⟩ := modify_ok ha fun n => n.setVal { n.val with balance := b }
  rw [Node.ofDir_setVal, Node.ofDir_val] at ha'
  exact ⟨h', e, ha', ho⟩

end Memory

/-! ## Replacing a subtree -/

/-- `new` takes the place of `old`: same addresses and elements, balanced, and nothing else is
touched. -/
structure Turned (h h' : Heap (Label α)) (old new : ElementTree α) : Prop where
  rep : Rep h' new
  perm : new.addrs.Perm old.addrs
  frame : ∀ a, a ∉ old.addrs → h' a = h a
  balanced : HeightBalanced new
  elems : inOrder new = inOrder old

section Path

variable {T : HBT α} {C : List (ElementFrame α)} {s s' : ElementTree α} {h' : Heap (Label α)}
  {p q : Option Addr}

theorem ptr_plug_of_ne_nil (hC : C ≠ []) (s s' : ElementTree α) : (plug C s).ptr = (plug C s').ptr := by
  induction C generalizing s s' with
  | nil => exact absurd rfl hC
  | cons F C ih =>
    rcases eq_or_ne C [] with rfl | hne
    · simp [plug]
    · exact ih hne _ _

theorem ptr_plug (hp : s.ptr = s'.ptr) : (plug C s).ptr = (plug C s').ptr := by
  rcases eq_or_ne C [] with rfl | hne
  · exact hp
  · exact ptr_plug_of_ne_nil hne s s'

/-- Replace a subtree without moving its root. -/
theorem Stores.replace (hT : Stores T (plug C s)) (hrep : Rep h' s') (hptr : s'.ptr = s.ptr)
    (hnd : s'.addrs.Nodup) (hout : ∀ a ∈ s'.addrs, a ∉ ctxAddrs C)
    (hframe : ∀ a ∈ ctxAddrs C, h' a = T.heap a) : Stores { T with heap := h' } (plug C s') where
  root := by
    rw [ptr_plug hptr]
    exact hT.root
  rep := by
    have hC := (rep_plug.mp hT.rep).1
    exact rep_plug.mpr ⟨hptr ▸ hC.congr hframe, hrep⟩
  nodup := nodup_plug.mpr ⟨hnd, (nodup_plug.mp hT.nodup).2.1, hout⟩

/-- Writing the open end of a path. -/
theorem setChild_ctx {h : Heap (Label α)} {F : ElementFrame α} (hC : RepCtx h (F :: C) p)
    (hnd : (ctxAddrs (F :: C)).Nodup) (q : Option Addr) :
    ∃ h', setChild h (some F.addr) F.dir q = .ok h' ∧ RepCtx h' (F :: C) q ∧
      ∀ a, a ∉ ctxAddrs (F :: C) → h' a = h a := by
  obtain ⟨hF, hsib, hC⟩ := hC
  have hnot : ∀ a ∈ F.sib.addrs ++ ctxAddrs C, a ≠ F.addr := by
    intro a ha he
    rw [ctxAddrs_cons, Frame.addrs, List.cons_append, List.nodup_cons, ← he] at hnd
    exact hnd.1 ha
  obtain ⟨h₁, e₁, hF₁, ho⟩ := setChild_ok hF F.dir q
  rw [Node.ofDir_setChild] at hF₁
  refine ⟨h₁, e₁, ⟨hF₁, ?_, ?_⟩, fun a ha => ho a fun he => ha ?_⟩
  · exact hsib.congr fun a ha => ho a (hnot a (List.mem_append_left _ ha))
  · exact hC.congr fun a ha => ho a (hnot a (List.mem_append_right _ ha))
  · rw [he]
    exact List.mem_cons_self

/-- Pointing the father at a new subtree closes the path around it. -/
theorem setSon_eq (hC : RepCtx T.heap C p) (hnd : (ctxAddrs C).Nodup) (q : Option Addr) :
    ∃ T', setSon T (father (stackOf C)).1 (father (stackOf C)).2 q = .ok T' ∧ RepCtx T'.heap C q ∧
      (∀ a, a ∉ ctxAddrs C → T'.heap a = T.heap a) ∧ T'.root = (if C = [] then q else T.root) ∧
      T'.num = T.num ∧ T'.height = T.height ∧ T'.mallocFlag = T.mallocFlag := by
  rcases C with _ | ⟨F, C⟩
  · exact ⟨{ T with root := q }, rfl, trivial, fun _ _ => rfl, rfl, rfl, rfl, rfl⟩
  · obtain ⟨h₁, e₁, hC₁, ho⟩ := setChild_ctx hC hnd q
    refine ⟨{ T with heap := h₁ }, ?_, hC₁, ho, (if_neg (List.cons_ne_nil F C)).symm, rfl, rfl, rfl⟩
    simp only [stackOf, List.map_cons, father, setSon, e₁]
    rfl

/-- Replace a subtree and point the father at its new root. -/
theorem Stores.turn (hT : Stores T (plug C s)) (ht : Turned T.heap h' s s') :
    ∃ T', setSon { T with heap := h' } (father (stackOf C)).1 (father (stackOf C)).2 s'.ptr = .ok T' ∧
      Stores T' (plug C s') ∧ T'.num = T.num ∧ T'.height = T.height ∧ T'.mallocFlag = T.mallocFlag ∧
      ∀ a, a ∉ (plug C s).addrs → T'.heap a = T.heap a := by
  obtain ⟨hs, hC, hd⟩ := nodup_plug.mp hT.nodup
  have hrC : RepCtx h' C s.ptr := (rep_plug.mp hT.rep).1.congr fun a ha =>
    ht.frame a fun has => hd a has ha
  obtain ⟨T', he, hC', hfr, hroot, hnum, hh, hm⟩ :=
    setSon_eq (T := { T with heap := h' }) hrC hC s'.ptr
  have hd' : ∀ a ∈ s'.addrs, a ∉ ctxAddrs C := fun a ha => hd a (ht.perm.mem_iff.mp ha)
  refine ⟨T', he, ⟨?_, rep_plug.mpr ⟨hC', ?_⟩, ?_⟩, hnum, hh, hm, fun a ha => ?_⟩
  · rw [hroot]
    split_ifs with hn
    · rw [hn]
      rfl
    · rw [ptr_plug_of_ne_nil hn s' s]
      exact hT.root
  · exact ht.rep.congr fun a ha => hfr a (hd' a ha)
  · exact nodup_plug.mpr ⟨ht.perm.nodup_iff.mpr hs, hC, hd'⟩
  · rw [addrs_plug.mem_iff, List.mem_append, not_or] at ha
    exact (hfr a ha.2).trans (ht.frame a ha.1)

/-- Replace a subtree whose root stays where it is. -/
theorem Stores.turn_same (hT : Stores T (plug C s)) (ht : Turned T.heap h' s s')
    (hptr : s'.ptr = s.ptr) : Stores { T with heap := h' } (plug C s') := by
  obtain ⟨hs, -, hd⟩ := nodup_plug.mp hT.nodup
  exact hT.replace ht.rep hptr (ht.perm.nodup_iff.mpr hs) (fun a ha => hd a (ht.perm.mem_iff.mp ha))
    fun a ha => ht.frame a fun has => hd a has ha

end Path

end ParFlow.Hbt
