import ParFlow.Grid.SubgridCells
import ParFlow.Geom.BranchFlags
import ParFlow.Geom.CellDefs

/-! What `GrGeomOctreeAddCell` does to the cells that `GrGeomOctreeFind` finds. A coarse leaf on the way to the cell is
split into new children, which are empty. -/

namespace ParFlow.Geom

open GrGeomOctree

/-! ## Bits -/

section Bits

variable {i j : ℤ} {l b : ℕ} {c d : Cell}

theorem maskBit_eq_iff : maskBit i b = maskBit j b ↔ i / 2 ^ b % 2 = j / 2 ^ b % 2 := by
  unfold maskBit
  rw [decide_eq_decide]
  omega

theorem emod_two_pow_succ (i : ℤ) (l : ℕ) : i % 2 ^ (l + 1) = i % 2 ^ l + 2 ^ l * (i / 2 ^ l % 2) := by
  have hl := Int.mul_ediv_add_emod i (2 ^ l)
  have htwo := Int.mul_ediv_add_emod (i / 2 ^ l) 2
  have hpos : (0 : ℤ) < 2 ^ l := by positivity
  have hlow := Int.emod_nonneg i hpos.ne'
  have hhigh := Int.emod_lt_of_pos i hpos
  have hbit := Int.emod_two_eq (i / 2 ^ l)
  have hsplit : i = i % 2 ^ l + 2 ^ l * (i / 2 ^ l % 2) + 2 ^ (l + 1) * (i / 2 ^ l / 2) := by
    have : i = 2 ^ l * (2 * (i / 2 ^ l / 2) + i / 2 ^ l % 2) + i % 2 ^ l := by rw [htwo, hl]
    rw [pow_succ]
    linarith
  conv_lhs => rw [hsplit]
  rw [Int.add_mul_emod_self_left]
  apply Int.emod_eq_of_lt
  · rcases hbit with h | h <;> rw [h] <;> linarith
  · rw [pow_succ]
    rcases hbit with h | h <;> rw [h] <;> linarith

/-- The bits below a level are those of the remainder. -/
theorem maskBits_eq_iff : (∀ b < l, maskBit i b = maskBit j b) ↔ i % 2 ^ l = j % 2 ^ l := by
  induction l with
  | zero => simp
  | succ l ih =>
    have hsplit : (∀ b < l + 1, maskBit i b = maskBit j b) ↔ (∀ b < l, maskBit i b = maskBit j b) ∧ maskBit i l = maskBit j l := by
      constructor
      · intro h
        exact ⟨fun b hb => h b (by omega), h l (by omega)⟩
      · rintro ⟨h, hl⟩ b hb
        rcases Nat.lt_succ_iff_lt_or_eq.mp hb with hb | rfl
        · exact h b hb
        · exact hl
    rw [hsplit, ih, maskBit_eq_iff, emod_two_pow_succ i, emod_two_pow_succ j]
    have hpos : (0 : ℤ) < 2 ^ l := by positivity
    have hi := Int.emod_nonneg i hpos.ne'
    have hi' := Int.emod_lt_of_pos i hpos
    have hj := Int.emod_nonneg j hpos.ne'
    have hj' := Int.emod_lt_of_pos j hpos
    constructor
    · rintro ⟨h, hbit⟩
      rw [h, hbit]
    · intro h
      rcases Int.emod_two_eq (i / 2 ^ l) with h1 | h1 <;> rcases Int.emod_two_eq (j / 2 ^ l) with h2 | h2 <;>
        rw [h1, h2] at h ⊢ <;> constructor <;> first | rfl | linarith

theorem octant_eq_iff : octant c b = octant d b ↔ ∀ a : Axis, maskBit (a.coord c) b = maskBit (a.coord d) b := by
  rw [Axis.forall]
  show octant c b = octant d b ↔ maskBit c.1 b = maskBit d.1 b ∧ maskBit c.2.1 b = maskBit d.2.1 b ∧
    maskBit c.2.2 b = maskBit d.2.2 b
  unfold octant
  generalize maskBit c.1 b = x, maskBit c.2.1 b = y, maskBit c.2.2 b = z, maskBit d.1 b = x', maskBit d.2.1 b = y',
    maskBit d.2.2 b = z'
  revert x y z x' y' z'
  decide

/-- The cells have the same octants at all levels. -/
def SamePath (l : ℕ) (c d : Cell) : Prop := ∀ b < l, octant c b = octant d b

/-- The same at the levels from `r` on: the cells are in one block with side `2 ^ r`. -/
def SameBlock (r l : ℕ) (c d : Cell) : Prop := ∀ b, r ≤ b → b < l → octant c b = octant d b

theorem SamePath.block {r : ℕ} (h : SamePath l c d) : SameBlock r l c d := fun b _ hb => h b hb

theorem samePath_iff : SamePath l c d ↔ ∀ a : Axis, a.coord c % 2 ^ l = a.coord d % 2 ^ l := by
  unfold SamePath
  simp only [octant_eq_iff, ← maskBits_eq_iff]
  exact ⟨fun h a b hb => h b hb a, fun h b hb a => h a b hb⟩

theorem SamePath.succ (h : SamePath l c d) (hl : octant c l = octant d l) : SamePath (l + 1) c d := by
  intro b hb
  rcases Nat.lt_succ_iff_lt_or_eq.mp hb with hb | rfl
  · exact h b hb
  · exact hl

end Bits

/-! ## Search after a change -/

section Search

variable {c d : Cell} {l : ℕ} {t : GrGeomOctree} {f : GrGeomOctree → GrGeomOctree}

/-- The node of a cell at the level, as it is found or made. -/
def cellNode (c : Cell) : ℕ → GrGeomOctree → GrGeomOctree
  | 0, node => node
  | _ + 1, leaf _ _ => newOctree
  | l + 1, branch _ _ children => cellNode c l (children (octant c l))

theorem findNode_newOctree (c : Cell) (l : ℕ) : findNode c l newOctree = (newOctree, l) := by cases l <;> rfl

theorem cellNode_newOctree (c : Cell) (l : ℕ) : cellNode c l newOctree = newOctree := by cases l <;> rfl

/-- The search stops at the level, or at a leaf above it, and then a new node is made. -/
theorem findNode_cases (c : Cell) (l : ℕ) (t : GrGeomOctree) :
    (findNode c l t).2 = 0 ∧ cellNode c l t = (findNode c l t).1 ∨
      0 < (findNode c l t).2 ∧ cellNode c l t = newOctree ∧ (findNode c l t).1.nodeIsLeaf := by
  induction l generalizing t with
  | zero => exact Or.inl ⟨rfl, rfl⟩
  | succ l ih =>
    cases t with
    | leaf flags faces => exact Or.inr ⟨Nat.succ_pos l, rfl, rfl⟩
    | branch flags faces children => exact ih (children (octant c l))

theorem findNode_le (c : Cell) (l : ℕ) (t : GrGeomOctree) : (findNode c l t).2 ≤ l := by
  induction l generalizing t with
  | zero => exact le_rfl
  | succ l ih =>
    cases t with
    | leaf flags faces => exact le_rfl
    | branch flags faces children => exact (ih (children (octant c l))).trans (Nat.le_succ l)

/-- The changed node is found at the level. -/
theorem findNode_modifyCell_self (h : SamePath l c d) : findNode d l (modifyCell f c l t) = (f (cellNode c l t), 0) := by
  induction l generalizing t with
  | zero => rfl
  | succ l ih =>
    have hl : octant d l = octant c l := (h l (by omega)).symm
    have hbelow := @ih (newOctreeChildren t (octant c l)) fun b hb => h b (by omega)
    rw [modifyCell, findNode, hl, setChild_self, hbelow]
    cases t with
    | leaf flags faces => rw [newOctreeChildren, cellNode_newOctree, cellNode]
    | branch flags faces children => rfl

/-- What is found for another cell looks the same afterwards, when a leaf that is split looks like a new node. -/
theorem findNode_modifyCell_other {γ : Type} (look : GrGeomOctree → γ)
    (hlook : look (findNode c l t).1 = look (cellNode c l t)) (h : ¬ SamePath l c d) :
    look (findNode d l (modifyCell f c l t)).1 = look (findNode d l t).1 := by
  induction l generalizing t with
  | zero => exact absurd (fun b hb => absurd hb (Nat.not_lt_zero b)) h
  | succ l ih =>
    rw [modifyCell, findNode]
    by_cases hl : octant d l = octant c l
    · have hbelow : ¬ SamePath l c d := fun hbelow => h (hbelow.succ hl.symm)
      rw [hl, setChild_self]
      cases t with
      | leaf flags faces =>
        have hnew := @ih newOctree (by rw [findNode_newOctree, cellNode_newOctree]) hbelow
        rw [newOctreeChildren, hnew, findNode_newOctree]
        exact hlook.symm
      | branch flags faces children =>
        rw [newOctreeChildren, ih hlook hbelow, findNode, hl]
    · rw [setChild_of_ne (Fin.val_ne_of_ne hl)]
      cases t with
      | leaf flags faces =>
        rw [newOctreeChildren, findNode_newOctree]
        exact hlook.symm
      | branch flags faces children => rfl

/-- A cell with the same octants down to where the search stops is in the same node. -/
theorem findNode_same (h : SameBlock (findNode c l t).2 l c d) : findNode d l t = findNode c l t := by
  induction l generalizing t with
  | zero => rfl
  | succ l ih =>
    cases t with
    | leaf flags faces => rfl
    | branch flags faces children =>
      rw [findNode, findNode, ← h l (findNode_le c l (children (octant c l))) (Nat.lt_succ_self l)]
      exact ih fun b hb hbl => h b hb (hbl.trans (Nat.lt_succ_self l))

/-- Afterwards it is in a node of its own, which is new. -/
theorem findNode_split (h : ∀ b, 0 < b → b < l → octant d b = octant c b) (hne : ¬ SamePath l c d)
    (hstop : 0 < (findNode c l t).2) : (findNode d l (modifyCell f c l t)).1 = newOctree := by
  induction l generalizing t with
  | zero => exact absurd hstop (lt_irrefl 0)
  | succ l ih =>
    rw [modifyCell, findNode]
    by_cases hl : octant d l = octant c l
    · have hbelow : ¬ SamePath l c d := fun hbelow => hne (hbelow.succ hl.symm)
      rw [hl, setChild_self]
      cases t with
      | leaf flags faces =>
        have hnew := findNode_modifyCell_other (f := f) id (by rw [findNode_newOctree, cellNode_newOctree]) hbelow
        rw [newOctreeChildren]
        exact hnew.trans (congrArg Prod.fst (findNode_newOctree d l))
      | branch flags faces children => exact ih (fun b hb hbl => h b hb (by omega)) hbelow hstop
    · rw [setChild_of_ne (Fin.val_ne_of_ne hl)]
      cases t with
      | leaf flags faces => exact congrArg Prod.fst (findNode_newOctree d l)
      | branch flags faces children =>
        rcases Nat.eq_zero_or_pos l with rfl | hl'
        · exact absurd hstop (lt_irrefl 0)
        · exact absurd (h l hl' (by omega)) hl

end Search

/-! ## Labels -/

section Labels

variable {c d : Cell} {level : ℕ} {octree : GrGeomOctree} {cell : NodeFlags}

theorem not_outOfRange_iff : ¬ OutOfRange c level ↔ ∀ a : Axis, 0 ≤ a.coord c ∧ a.coord c < 2 ^ level := by
  rw [Axis.forall]
  show ¬ OutOfRange c level ↔ (0 ≤ c.1 ∧ c.1 < 2 ^ level) ∧ (0 ≤ c.2.1 ∧ c.2.1 < 2 ^ level) ∧ 0 ≤ c.2.2 ∧ c.2.2 < 2 ^ level
  unfold OutOfRange
  omega

theorem coord_ext (h : ∀ a : Axis, a.coord c = a.coord d) : c = d :=
  Prod.ext (h .x) (Prod.ext (h .y) (h .z))

theorem eq_of_samePath (hc : ¬ OutOfRange c level) (hd : ¬ OutOfRange d level) (h : SamePath level c d) : c = d := by
  rw [not_outOfRange_iff] at hc hd
  rw [samePath_iff] at h
  apply coord_ext
  intro a
  have ha := h a
  rwa [Int.emod_eq_of_lt (hc a).1 (hc a).2, Int.emod_eq_of_lt (hd a).1 (hd a).2] at ha

theorem maskBit_of_half {i j : ℤ} {b : ℕ} (h : i / 2 = j / 2) (hb : 0 < b) : maskBit i b = maskBit j b := by
  obtain ⟨b, rfl⟩ := Nat.exists_eq_add_of_lt hb
  have hpow : (2 : ℤ) ^ (0 + b + 1) = 2 * 2 ^ b := by ring
  rw [maskBit_eq_iff, hpow, ← Int.ediv_ediv_of_nonneg (by omega), ← Int.ediv_ediv_of_nonneg (by omega), h]

/-- A cell in the same octants but the last. -/
theorem exists_sibling (hc : ¬ OutOfRange c level) (hlevel : 0 < level) :
    ∃ d, ¬ OutOfRange d level ∧ d ≠ c ∧ ∀ b, 0 < b → b < level → octant d b = octant c b := by
  rw [not_outOfRange_iff] at hc
  obtain ⟨level, rfl⟩ : ∃ n, level = n + 1 := ⟨level - 1, by omega⟩
  obtain ⟨x, y, z⟩ := c
  have hx := hc .x
  have heven : ∃ x', 0 ≤ x' ∧ x' < 2 ^ (level + 1) ∧ x' ≠ x ∧ x' / 2 = x / 2 := by
    simp only [Axis.coord] at hx
    rw [pow_succ] at hx ⊢
    by_cases h : x % 2 = 0
    · exact ⟨x + 1, by omega, by omega, by omega, by omega⟩
    · exact ⟨x - 1, by omega, by omega, by omega, by omega⟩
  obtain ⟨x', h0, hlt, hne, hhalf⟩ := heven
  refine ⟨(x', y, z), ?_, fun h => hne (congrArg Prod.fst h), fun b hb _ => ?_⟩
  · rw [not_outOfRange_iff, Axis.forall]
    exact ⟨⟨h0, hlt⟩, hc .y, hc .z⟩
  · rw [octant_eq_iff, Axis.forall]
    exact ⟨maskBit_of_half hhalf hb, rfl, rfl⟩

/-- The label that is found for a cell. -/
def foundLabel (octree : GrGeomOctree) (c : Cell) (level : ℕ) : Option NodeFlags :=
  (octreeFind octree c level).map fun r => r.1.flags

theorem octreeFind_eq (hc : ¬ OutOfRange c level) : octreeFind octree c level =
    some ((findNode c level octree).1, level - (findNode c level octree).2) := if_neg hc

theorem writeCell_flags (node : GrGeomOctree) :
    (writeCell cell node).flags = if node.flags.inside then node.flags else cell := by
  unfold writeCell nodeIsInside
  cases node with
  | leaf flags faces =>
    by_cases h : flags.inside
    · simp [GrGeomOctree.flags, h]
    · simp [GrGeomOctree.flags, h, setLeafFlag]
  | branch flags faces children =>
    by_cases h : flags.inside
    · simp [GrGeomOctree.flags, h]
    · simp [GrGeomOctree.flags, h, setLeafFlag]

/-- The cell gets the label unless it was inside, and every other cell keeps its own. -/
def AddsLabel (octree : GrGeomOctree) (cell : NodeFlags) (c : Cell) (level : ℕ) : Prop :=
  foundLabel (octreeAddCell octree cell c level) c level =
      (foundLabel octree c level).map (fun label => if label.inside then label else cell) ∧
    ∀ d, d ≠ c → foundLabel (octreeAddCell octree cell c level) d level = foundLabel octree d level

/-- The cell is a node of its own, or in a larger leaf that is empty. -/
def CanAdd (octree : GrGeomOctree) (c : Cell) (level : ℕ) : Prop :=
  ∃ node newLevel, octreeFind octree c level = some (node, newLevel) ∧ (newLevel = level ∨ node.flags = nodeEmpty)

theorem canAdd_iff (hc : ¬ OutOfRange c level) : CanAdd octree c level ↔
    (findNode c level octree).2 = 0 ∨ (findNode c level octree).1.flags = nodeEmpty := by
  have hle := findNode_le c level octree
  unfold CanAdd
  rw [octreeFind_eq hc]
  constructor
  · rintro ⟨node, newLevel, hfind, h⟩
    obtain ⟨rfl, rfl⟩ := Prod.mk.inj (Option.some.inj hfind)
    exact h.imp_left fun h => by omega
  · intro h
    exact ⟨_, _, rfl, h.imp_left fun h => by omega⟩

theorem foundLabel_addCell_self (hc : ¬ OutOfRange c level) :
    foundLabel (octreeAddCell octree cell c level) c level = some (writeCell cell (cellNode c level octree)).flags := by
  unfold foundLabel octreeAddCell
  rw [octreeFind_eq hc, findNode_modifyCell_self fun b _ => rfl]
  rfl

/-- A cell is added as it should be exactly when no labelled leaf is split for it. -/
theorem addCell_find_iff (octree : GrGeomOctree) (cell : NodeFlags) (c : Cell) (level : ℕ) (hc : ¬ OutOfRange c level) :
    AddsLabel octree cell c level ↔ CanAdd octree c level := by
  rw [canAdd_iff hc]
  constructor
  · rintro ⟨-, hother⟩
    rcases findNode_cases c level octree with ⟨hstop, -⟩ | ⟨hstop, -, -⟩
    · exact Or.inl hstop
    · -- the other half of the leaf is empty afterwards
      right
      have hlevel : 0 < level := hstop.trans_le (findNode_le c level octree)
      obtain ⟨d, hd, hne, hbits⟩ := exists_sibling hc hlevel
      have hpath : ¬ SamePath level c d := fun h => hne (eq_of_samePath hc hd h).symm
      have hd' := hother d hne
      unfold foundLabel octreeAddCell at hd'
      rw [octreeFind_eq hd, octreeFind_eq hd, Option.map_some, Option.map_some, findNode_split hbits hpath hstop,
        findNode_same fun b hb hbl => (hbits b (hstop.trans_le hb) hbl).symm] at hd'
      exact (Option.some.inj hd').symm
  · intro h
    have hlook : (findNode c level octree).1.flags = (cellNode c level octree).flags := by
      rcases findNode_cases c level octree with ⟨-, hnode⟩ | ⟨hstop, hnode, -⟩
      · rw [hnode]
      · rw [hnode]
        exact h.resolve_left hstop.ne'
    constructor
    · rw [foundLabel_addCell_self hc, writeCell_flags, ← hlook]
      unfold foundLabel
      rw [octreeFind_eq hc, Option.map_some, Option.map_some]
    · intro d hne
      unfold foundLabel octreeAddCell
      by_cases hd : OutOfRange d level
      · unfold octreeFind
        rw [if_pos hd, if_pos hd]
      · have hpath : ¬ SamePath level c d := fun h => hne (eq_of_samePath hc hd h).symm
        rw [octreeFind_eq hd, octreeFind_eq hd, Option.map_some, Option.map_some,
          findNode_modifyCell_other GrGeomOctree.flags hlook hpath]

/-- A cell of a new octree. -/
theorem newOctree_addsLabel : AddsLabel newOctree nodeInside (1, 0, 1) 1 := by
  have hc : ¬ OutOfRange (1, 0, 1) 1 := by decide
  have hfind : octreeFind newOctree (1, 0, 1) 1 = some (newOctree, 0) := rfl
  exact (addCell_find_iff newOctree nodeInside (1, 0, 1) 1 hc).mpr ⟨newOctree, 0, hfind, Or.inr rfl⟩

/-- A leaf of full cells is split, and the cells that are not asked for become empty. -/
theorem fullLeaf_emptied : ¬ ∀ octree cell c level, ¬ OutOfRange c level → AddsLabel octree cell c level := by
  intro h
  have hlost := (h (leaf nodeFull 0) nodeOutside (0, 0, 0) 1 (by decide)).2 (1, 0, 0) (by decide)
  revert hlost
  decide

end Labels

end ParFlow.Geom
