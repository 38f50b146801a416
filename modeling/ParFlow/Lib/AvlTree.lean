import Mathlib

/-! Binary trees laid out in a heap of linked nodes. A tree remembers the address of
every node; a context is the path from a subtree up to the root. Both sides of a
node are treated alike through a direction. -/

namespace HeapTree

abbrev Addr := ℕ

inductive Dir where
  | left | right
  deriving DecidableEq, Repr

namespace Dir

def opp : Dir → Dir
  | left => right
  | right => left

def sign : Dir → ℤ
  | left => -1
  | right => 1

@[simp] theorem opp_opp (d : Dir) : d.opp.opp = d := by cases d <;> rfl

@[simp] theorem opp_ne (d : Dir) : d.opp ≠ d := by cases d <;> decide

@[simp] theorem ne_opp (d : Dir) : d ≠ d.opp := by cases d <;> decide

@[simp] theorem sign_opp (d : Dir) : d.opp.sign = -d.sign := by cases d <;> rfl

theorem sign_cases (d : Dir) : d.sign = -1 ∨ d.sign = 1 := by cases d <;> simp [sign]

end Dir

variable {β : Type*}

structure Node (β : Type*) where
  val : β
  left : Option Addr
  right : Option Addr

abbrev Heap (β : Type*) := Addr → Option (Node β)

namespace Node

def child (n : Node β) : Dir → Option Addr
  | .left => n.left
  | .right => n.right

def setChild (n : Node β) (d : Dir) (p : Option Addr) : Node β :=
  match d with
  | .left => { n with left := p }
  | .right => { n with right := p }

def setVal (n : Node β) (v : β) : Node β := { n with val := v }

/-- The node with child `p` on side `d` and `q` on the other. -/
def ofDir (d : Dir) (v : β) (p q : Option Addr) : Node β :=
  match d with
  | .left => ⟨v, p, q⟩
  | .right => ⟨v, q, p⟩

variable {d : Dir} {v w : β} {p q r : Option Addr}

@[simp] theorem ofDir_val : (ofDir d v p q).val = v := by cases d <;> rfl

@[simp] theorem ofDir_child : (ofDir d v p q).child d = p := by cases d <;> rfl

@[simp] theorem ofDir_child_opp : (ofDir d v p q).child d.opp = q := by cases d <;> rfl

@[simp] theorem ofDir_setChild : (ofDir d v p q).setChild d r = ofDir d v r q := by cases d <;> rfl

@[simp] theorem ofDir_setChild_opp : (ofDir d v p q).setChild d.opp r = ofDir d v p r := by
  cases d <;> rfl

@[simp] theorem ofDir_setVal : (ofDir d v p q).setVal w = ofDir d w p q := by cases d <;> rfl

end Node

inductive HTree (β : Type*) where
  | nil
  | node (a : Addr) (l : HTree β) (v : β) (r : HTree β)

namespace HTree

def ptr : HTree β → Option Addr
  | nil => none
  | node a _ _ _ => some a

def addrs : HTree β → List Addr
  | nil => []
  | node a l _ r => a :: (l.addrs ++ r.addrs)

def height : HTree β → ℕ
  | nil => 0
  | node _ l _ r => max l.height r.height + 1

def toList : HTree β → List β
  | nil => []
  | node _ l v r => l.toList ++ v :: r.toList

def child (d : Dir) : HTree β → HTree β
  | nil => nil
  | node _ l _ r =>
    match d with
    | .left => l
    | .right => r

/-- The tree with subtree `s` on side `d` and `t` on the other. -/
def join (d : Dir) (a : Addr) (v : β) (s t : HTree β) : HTree β :=
  match d with
  | .left => node a s v t
  | .right => node a t v s

variable {d : Dir} {a : Addr} {v : β} {s t : HTree β}

@[simp] theorem ptr_nil : (nil : HTree β).ptr = none := rfl

@[simp] theorem ptr_node {l r : HTree β} : (node a l v r).ptr = some a := rfl

@[simp] theorem ptr_join : (join d a v s t).ptr = some a := by cases d <;> rfl

@[simp] theorem child_join : (join d a v s t).child d = s := by cases d <;> rfl

theorem join_opp : join d.opp a v s t = join d a v t s := by cases d <;> rfl

@[simp] theorem height_join : (join d a v s t).height = max s.height t.height + 1 := by
  cases d
  · rfl
  · rw [max_comm]
    rfl

theorem addrs_join : (join d a v s t).addrs.Perm (a :: (s.addrs ++ t.addrs)) := by
  cases d
  · exact List.Perm.refl _
  · exact List.Perm.cons _ List.perm_append_comm

theorem mem_addrs_join {b : Addr} :
    b ∈ (join d a v s t).addrs ↔ b = a ∨ b ∈ s.addrs ∨ b ∈ t.addrs := by
  rw [addrs_join.mem_iff, List.mem_cons, List.mem_append]

theorem count_addrs_join (b : Addr) : (join d a v s t).addrs.count b =
    s.addrs.count b + t.addrs.count b + if a = b then 1 else 0 := by
  rw [addrs_join.count_eq, List.count_cons, List.count_append]
  simp

theorem nodup_join : (join d a v s t).addrs.Nodup ↔ a ∉ s.addrs ∧ a ∉ t.addrs ∧
    s.addrs.Nodup ∧ t.addrs.Nodup ∧ ∀ b ∈ s.addrs, b ∉ t.addrs := by
  rw [addrs_join.nodup_iff, List.nodup_cons, List.mem_append, not_or, List.nodup_append, and_assoc]
  refine and_congr_right fun _ => and_congr_right fun _ => and_congr_right fun _ =>
    and_congr_right fun _ => ?_
  exact ⟨fun h b hb hb' => h b hb b hb' rfl, fun h b hb c hc hbc => h b hb (hbc ▸ hc)⟩

theorem ptr_eq_none : t.ptr = none ↔ t = nil := by
  cases t <;> simp

theorem ptr_eq_some : t.ptr = some a ↔ ∃ l v r, t = node a l v r := by
  cases t with
  | nil => simp
  | node b l w r =>
    simp only [ptr_node, Option.some.injEq, node.injEq]
    constructor
    · rintro rfl
      exact ⟨l, w, r, rfl, rfl, rfl, rfl⟩
    · rintro ⟨_, _, _, rfl, -⟩
      rfl

/-- Every non-empty tree, seen from a side. -/
theorem exists_join (d : Dir) (h : t ≠ nil) : ∃ a v s u, t = join d a v s u := by
  cases t with
  | nil => exact absurd rfl h
  | node a l v r =>
    cases d
    · exact ⟨a, v, l, r, rfl⟩
    · exact ⟨a, v, r, l, rfl⟩

/-- Induction in which a node may be seen from either side. -/
theorem induction_join {motive : HTree β → Prop} (hnil : motive nil)
    (hjoin : ∀ t, t ≠ nil → (∀ d a v s u, t = join d a v s u → motive s) → motive t) (t : HTree β) :
    motive t := by
  induction t with
  | nil => exact hnil
  | node a l v r ihl ihr =>
    refine hjoin _ (by simp) fun d b w s u he => ?_
    cases d <;> simp only [join, node.injEq] at he
    · exact he.2.1 ▸ ihl
    · exact he.2.2.2 ▸ ihr

theorem ptr_mem_addrs (h : t.ptr = some a) : a ∈ t.addrs := by
  obtain ⟨l, v, r, rfl⟩ := ptr_eq_some.mp h
  exact List.mem_cons_self

end HTree

open HTree

/-! ## Representation -/

/-- The heap stores every node of the tree. -/
def Rep (h : Heap β) : HTree β → Prop
  | .nil => True
  | .node a l v r => h a = some ⟨v, l.ptr, r.ptr⟩ ∧ Rep h l ∧ Rep h r

section Rep

variable {h h' : Heap β} {d : Dir} {a : Addr} {v : β} {s t : HTree β}

theorem rep_join : Rep h (join d a v s t) ↔
    h a = some (Node.ofDir d v s.ptr t.ptr) ∧ Rep h s ∧ Rep h t := by
  cases d
  · exact Iff.rfl
  · exact and_congr_right fun _ => and_comm

/-- Writing elsewhere keeps a stored tree. -/
theorem Rep.congr (hr : Rep h t) (hh : ∀ a ∈ t.addrs, h' a = h a) : Rep h' t := by
  induction t with
  | nil => trivial
  | node a l v r ihl ihr =>
    obtain ⟨ha, hl, hr⟩ := hr
    simp only [addrs, List.mem_cons, List.mem_append] at hh
    exact ⟨(hh a (Or.inl rfl)).trans ha, ihl hl fun b hb => hh b (Or.inr (Or.inl hb)),
      ihr hr fun b hb => hh b (Or.inr (Or.inr hb))⟩

/-- The links of a single rotation: the son at `b` rises over `a`. -/
theorem Rep.rotate {b : Addr} {w v' w' : β} {x y : HTree β}
    (hr : Rep h (join d a v s (join d b w x y))) (hnd : (join d a v s (join d b w x y)).addrs.Nodup)
    (ha : h' a = some (Node.ofDir d v' s.ptr x.ptr)) (hb : h' b = some (Node.ofDir d w' (some a) y.ptr))
    (hh : ∀ c, c ≠ a → c ≠ b → h' c = h c) : Rep h' (join d b w' (join d a v' s x) y) := by
  simp only [nodup_join, mem_addrs_join, not_or] at hnd
  obtain ⟨has, ⟨-, hax, hay⟩, -, ⟨hbx, hby, -, -, -⟩, hs⟩ := hnd
  obtain ⟨-, hrs, hrb⟩ := rep_join.mp hr
  obtain ⟨-, hrx, hry⟩ := rep_join.mp hrb
  have keep : ∀ t : HTree β, Rep h t → a ∉ t.addrs → b ∉ t.addrs → Rep h' t := fun t ht hat hbt =>
    ht.congr fun c hc => hh c (fun he => hat (he ▸ hc)) fun he => hbt (he ▸ hc)
  rw [rep_join, rep_join, ptr_join]
  exact ⟨hb, ⟨ha, keep s hrs has fun hbs => (hs b hbs).1 rfl, keep x hrx hax hbx⟩, keep y hry hay hby⟩

theorem addrs_rotate {b : Addr} {w v' w' : β} {x y : HTree β} :
    (join d b w' (join d a v' s x) y).addrs.Perm (join d a v s (join d b w x y)).addrs := by
  rw [List.perm_iff_count]
  intro e
  simp only [count_addrs_join]
  omega

/-- The links of a double rotation: the inner grandson at `c` rises over `a` and `b`. -/
theorem Rep.rotateDouble {b c : Addr} {u w u' v' w' : β} {x y z : HTree β}
    (hr : Rep h (join d a v s (join d b w (join d c u x y) z)))
    (hnd : (join d a v s (join d b w (join d c u x y) z)).addrs.Nodup)
    (ha : h' a = some (Node.ofDir d v' s.ptr x.ptr)) (hb : h' b = some (Node.ofDir d w' y.ptr z.ptr))
    (hc : h' c = some (Node.ofDir d u' (some a) (some b)))
    (hh : ∀ e, e ≠ a → e ≠ b → e ≠ c → h' e = h e) :
    Rep h' (join d c u' (join d a v' s x) (join d b w' y z)) := by
  simp only [nodup_join, mem_addrs_join, not_or] at hnd
  obtain ⟨has, ⟨-, ⟨-, hax, hay⟩, haz⟩, -, ⟨⟨-, hbx, hby⟩, hbz, ⟨hcx, hcy, -, -, -⟩, -, hcd⟩, hs⟩ := hnd
  obtain ⟨-, hrs, hrb⟩ := rep_join.mp hr
  obtain ⟨-, hrc, hrz⟩ := rep_join.mp hrb
  obtain ⟨-, hrx, hry⟩ := rep_join.mp hrc
  have keep : ∀ t : HTree β, Rep h t → a ∉ t.addrs → b ∉ t.addrs → c ∉ t.addrs → Rep h' t :=
    fun t ht hat hbt hct => ht.congr fun e he =>
      hh e (fun h => hat (h ▸ he)) (fun h => hbt (h ▸ he)) fun h => hct (h ▸ he)
  rw [rep_join, rep_join, rep_join, ptr_join, ptr_join]
  exact ⟨hc, ⟨ha, keep s hrs has (fun hbs => (hs b hbs).1 rfl) fun hcs => (hs c hcs).2.1.1 rfl,
    keep x hrx hax hbx hcx⟩, hb, keep y hry hay hby hcy, keep z hrz haz hbz (hcd c (Or.inl rfl))⟩

theorem addrs_rotateDouble {b c : Addr} {u w u' v' w' : β} {x y z : HTree β} :
    (join d c u' (join d a v' s x) (join d b w' y z)).addrs.Perm
      (join d a v s (join d b w (join d c u x y) z)).addrs := by
  rw [List.perm_iff_count]
  intro e
  simp only [count_addrs_join]
  omega

theorem Rep.isSome (hr : Rep h t) (ha : a ∈ t.addrs) : h a ≠ none := by
  induction t with
  | nil => exact absurd ha List.not_mem_nil
  | node b l v r ihl ihr =>
    obtain ⟨hb, hl, hr⟩ := hr
    rcases List.mem_cons.mp ha with rfl | ha
    · rw [hb]
      exact Option.some_ne_none _
    · rcases List.mem_append.mp ha with ha | ha
      · exact ihl hl ha
      · exact ihr hr ha

end Rep

/-! ## Contexts -/

/-- One node of a path, seen from its child on side `dir`. -/
structure Frame (β : Type*) where
  dir : Dir
  addr : Addr
  val : β
  sib : HTree β

namespace Frame

def fill (F : Frame β) (s : HTree β) : HTree β := join F.dir F.addr F.val s F.sib

def addrs (F : Frame β) : List Addr := F.addr :: F.sib.addrs

end Frame

/-- Put a subtree under a path, the innermost frame first. -/
def plug : List (Frame β) → HTree β → HTree β
  | [], s => s
  | F :: C, s => plug C (F.fill s)

def ctxAddrs (C : List (Frame β)) : List Addr := C.flatMap Frame.addrs

/-- The heap stores the path, with the pointer `p` at its open end. -/
def RepCtx (h : Heap β) : List (Frame β) → Option Addr → Prop
  | [], _ => True
  | F :: C, p => h F.addr = some (Node.ofDir F.dir F.val p F.sib.ptr) ∧ Rep h F.sib ∧
      RepCtx h C (some F.addr)

section Context

variable {h h' : Heap β} {C D : List (Frame β)} {F : Frame β} {s s' : HTree β} {p q : Option Addr}

@[simp] theorem ptr_fill : (F.fill s).ptr = some F.addr := ptr_join

theorem plug_append : plug (C ++ D) s = plug D (plug C s) := by
  induction C generalizing s with
  | nil => rfl
  | cons F C ih => exact ih

@[simp] theorem plug_cons : plug (F :: C) s = plug C (F.fill s) := rfl

theorem plug_snoc : plug (C ++ [F]) s = F.fill (plug C s) := by
  rw [plug_append]
  rfl

theorem ctxAddrs_cons : ctxAddrs (F :: C) = F.addrs ++ ctxAddrs C := rfl

theorem rep_fill : Rep h (F.fill s) ↔
    h F.addr = some (Node.ofDir F.dir F.val s.ptr F.sib.ptr) ∧ Rep h s ∧ Rep h F.sib := rep_join

theorem rep_plug : Rep h (plug C s) ↔ RepCtx h C s.ptr ∧ Rep h s := by
  induction C generalizing s with
  | nil => exact ⟨fun hs => ⟨trivial, hs⟩, fun hs => hs.2⟩
  | cons F C ih =>
    rw [plug_cons, ih, rep_fill, ptr_fill, RepCtx]
    tauto

theorem RepCtx.congr (hr : RepCtx h C p) (hh : ∀ a ∈ ctxAddrs C, h' a = h a) : RepCtx h' C p := by
  induction C generalizing p with
  | nil => trivial
  | cons F C ih =>
    obtain ⟨ha, hs, hC⟩ := hr
    simp only [ctxAddrs_cons, Frame.addrs, List.cons_append, List.mem_cons, List.mem_append] at hh
    exact ⟨(hh _ (Or.inl rfl)).trans ha, hs.congr fun b hb => hh b (Or.inr (Or.inl hb)),
      ih hC fun b hb => hh b (Or.inr (Or.inr hb))⟩

theorem addrs_fill : (F.fill s).addrs.Perm (s.addrs ++ F.addrs) := by
  refine addrs_join.trans ?_
  exact List.perm_middle.symm

theorem addrs_plug : (plug C s).addrs.Perm (s.addrs ++ ctxAddrs C) := by
  induction C generalizing s with
  | nil =>
    rw [ctxAddrs, List.flatMap_nil, List.append_nil]
    exact List.Perm.refl _
  | cons F C ih =>
    rw [plug_cons, ctxAddrs_cons, ← List.append_assoc]
    exact ih.trans (addrs_fill.append_right _)

theorem nodup_plug : (plug C s).addrs.Nodup ↔
    s.addrs.Nodup ∧ (ctxAddrs C).Nodup ∧ ∀ a ∈ s.addrs, a ∉ ctxAddrs C := by
  rw [addrs_plug.nodup_iff, List.nodup_append]
  refine and_congr_right fun _ => and_congr_right fun _ => ?_
  exact ⟨fun h a ha hb => h a ha a hb rfl, fun h a ha b hb hab => h a ha (hab ▸ hb)⟩

theorem nodup_fill : (F.fill s).addrs.Nodup ↔ F.addr ∉ s.addrs ∧ F.addr ∉ F.sib.addrs ∧
    s.addrs.Nodup ∧ F.sib.addrs.Nodup ∧ ∀ a ∈ s.addrs, a ∉ F.sib.addrs := nodup_join

end Context

end HeapTree

/-! Height balance of linked trees whose labels carry a balance factor, and what
rotations do to it. `bal` reads the factor of a label and `obj` its element. -/

namespace HeapTree

open HTree

variable {β γ : Type*}

/-! ## Elements in order -/

section Elems

variable (obj : β → γ)

def elems : HTree β → List γ
  | .nil => []
  | .node _ l v r => elems l ++ obj v :: elems r

def ctxBefore : List (Frame β) → List γ
  | [] => []
  | F :: C => ctxBefore C ++ match F.dir with
    | .left => []
    | .right => elems obj F.sib ++ [obj F.val]

def ctxAfter : List (Frame β) → List γ
  | [] => []
  | F :: C => (match F.dir with
    | .left => obj F.val :: elems obj F.sib
    | .right => []) ++ ctxAfter C

variable {obj}

theorem elems_plug (obj : β → γ) (C : List (Frame β)) (s : HTree β) :
    elems obj (plug C s) = ctxBefore obj C ++ elems obj s ++ ctxAfter obj C := by
  induction C generalizing s with
  | nil => simp [plug, ctxBefore, ctxAfter]
  | cons F C ih =>
    rw [plug_cons, ih, ctxBefore, ctxAfter]
    obtain ⟨d, a, v, sib⟩ := F
    cases d <;> simp [Frame.fill, join, elems]

theorem elems_plug_congr {s s' : HTree β} (C : List (Frame β)) (h : elems obj s = elems obj s') :
    elems obj (plug C s) = elems obj (plug C s') := by
  rw [elems_plug, elems_plug, h]

variable {d : Dir} {a b c : Addr} {u v w u' v' w' : β} {s x y z : HTree β}

/-- The single rotation lifts the outer subtree `y` of the son at `b`. -/
theorem elems_rotate (hv : obj v' = obj v) (hw : obj w' = obj w) :
    elems obj (join d b w' (join d a v' s x) y) = elems obj (join d a v s (join d b w x y)) := by
  cases d <;> simp [join, elems, hv, hw]

/-- The double rotation lifts the inner grandson at `c`. -/
theorem elems_rotateDouble (hu : obj u' = obj u) (hv : obj v' = obj v) (hw : obj w' = obj w) :
    elems obj (join d c u' (join d a v' s x) (join d b w' y z)) =
      elems obj (join d a v s (join d b w (join d c u x y) z)) := by
  cases d <;> simp [join, elems, hu, hv, hw]

end Elems

/-! ## Balance -/

section Balance

variable (bal : β → ℤ)

/-- Every balance factor is the height on the right less the height on the left, and small. -/
def AvlBalanced : HTree β → Prop
  | .nil => True
  | .node _ l v r => (bal v = (r.height : ℤ) - l.height ∧ -1 ≤ bal v ∧ bal v ≤ 1) ∧
      AvlBalanced l ∧ AvlBalanced r

/-- The frame is balanced around a subtree of height `k`. -/
def Frame.Fits (F : Frame β) (k : ℕ) : Prop :=
  (bal F.val = F.dir.sign * ((k : ℤ) - F.sib.height) ∧ -1 ≤ bal F.val ∧ bal F.val ≤ 1) ∧
    AvlBalanced bal F.sib

def Frame.height (F : Frame β) (k : ℕ) : ℕ := max k F.sib.height + 1

def FitsCtx : List (Frame β) → ℕ → Prop
  | [], _ => True
  | F :: C, k => F.Fits bal k ∧ FitsCtx C (F.height k)

def ctxHeight : List (Frame β) → ℕ → ℕ
  | [], k => k
  | F :: C, k => ctxHeight C (F.height k)

variable {bal} {d : Dir} {a b c : Addr} {u v w u' v' w' : β} {s t x y z : HTree β}

theorem balanced_join : AvlBalanced bal (join d a v s t) ↔
    (bal v = d.sign * ((s.height : ℤ) - t.height) ∧ -1 ≤ bal v ∧ bal v ≤ 1) ∧
      AvlBalanced bal s ∧ AvlBalanced bal t := by
  cases d
  · simp only [join, AvlBalanced, Dir.sign, neg_one_mul, neg_sub]
  · simp only [join, AvlBalanced, Dir.sign, one_mul]
    exact and_congr_right fun _ => and_comm

theorem height_fill (F : Frame β) (s : HTree β) : (F.fill s).height = F.height s.height := height_join

theorem balanced_fill {F : Frame β} : AvlBalanced bal (F.fill s) ↔ F.Fits bal s.height ∧ AvlBalanced bal s := by
  rw [Frame.fill, balanced_join, Frame.Fits]
  tauto

theorem height_plug (C : List (Frame β)) (s : HTree β) : (plug C s).height = ctxHeight C s.height := by
  induction C generalizing s with
  | nil => rfl
  | cons F C ih => rw [plug_cons, ih, height_fill, ctxHeight]

theorem le_ctxHeight (C : List (Frame β)) (k : ℕ) : k + C.length ≤ ctxHeight C k := by
  induction C generalizing k with
  | nil => exact le_rfl
  | cons F C ih =>
    have := ih (F.height k)
    rw [ctxHeight, List.length_cons]
    simp only [Frame.height] at this ⊢
    omega

theorem balanced_plug {C : List (Frame β)} :
    AvlBalanced bal (plug C s) ↔ FitsCtx bal C s.height ∧ AvlBalanced bal s := by
  induction C generalizing s with
  | nil => exact ⟨fun h => ⟨trivial, h⟩, fun h => h.2⟩
  | cons F C ih =>
    rw [plug_cons, ih, balanced_fill, height_fill, FitsCtx]
    tauto

/-- The balance factor at the root; an empty tree counts as balanced. -/
def rootBal (bal : β → ℤ) : HTree β → ℤ
  | .nil => 0
  | .node _ _ v _ => bal v

@[simp] theorem rootBal_join (bal : β → ℤ) : rootBal bal (join d a v s t) = bal v := by cases d <;> rfl

/-- Single rotation when the side opposite to `d` is two higher and the son at `b` does not lean
towards `d`: one less high exactly when the son leans away. -/
theorem balanced_rotate (a b : Addr) (v' w' : β) (hs : AvlBalanced bal s) (hx : AvlBalanced bal x) (hy : AvlBalanced bal y)
    (hw : bal w = d.sign * ((x.height : ℤ) - y.height)) (hlean : bal w = 0 ∨ bal w = -d.sign)
    (hhigh : (s.height : ℤ) + 2 = (join d b w x y).height)
    (hv' : bal v' = if bal w = 0 then -d.sign else 0) (hw' : bal w' = if bal w = 0 then d.sign else 0) :
    AvlBalanced bal (join d b w' (join d a v' s x) y) ∧
      (join d b w' (join d a v' s x) y).height + (if bal w = 0 then 0 else 1) = s.height + 3 := by
  simp only [balanced_join, height_join] at hhigh ⊢
  simp only [hs, hx, hy, hv', hw', and_true]
  clear hv' hw'
  rcases d.sign_cases with hd | hd <;> rw [hd] at hw hlean ⊢ <;> split_ifs with h <;>
    (push_cast at hhigh ⊢; simp only [and_true]; omega)

/-- Double rotation when the side opposite to `d` is two higher and the son at `b` leans towards
`d`: always one less high. -/
theorem balanced_rotateDouble (a b c : Addr) (u' v' w' : β) (hs : AvlBalanced bal s) (hx : AvlBalanced bal x) (hy : AvlBalanced bal y)
    (hz : AvlBalanced bal z) (hu : bal u = d.sign * ((x.height : ℤ) - y.height)) (hu1 : -1 ≤ bal u)
    (hu2 : bal u ≤ 1) (hw : bal w = d.sign * (((join d c u x y).height : ℤ) - z.height))
    (hlean : bal w = d.sign) (hhigh : (s.height : ℤ) + 2 = (join d b w (join d c u x y) z).height)
    (hu' : bal u' = 0) (hv' : bal v' = if bal u = 0 ∨ bal u = d.sign then 0 else d.sign)
    (hw' : bal w' = if bal u = d.sign then -d.sign else 0) :
    AvlBalanced bal (join d c u' (join d a v' s x) (join d b w' y z)) ∧
      (join d c u' (join d a v' s x) (join d b w' y z)).height + 1 = s.height + 3 := by
  simp only [balanced_join, height_join] at hhigh hw ⊢
  simp only [hs, hx, hy, hz, hu', hv', hw', and_true]
  clear hv' hw'
  rcases d.sign_cases with hd | hd <;> rw [hd] at hu hw hlean ⊢ <;> split_ifs <;>
    (push_cast at hhigh hw ⊢; simp only [and_true]; omega)

end Balance

end HeapTree
