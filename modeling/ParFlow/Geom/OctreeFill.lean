import ParFlow.Geom.OctreeSplit
import ParFlow.Geom.IndicatorSweeps

/-! The fill between the marked cells. Where a node that is still empty is reached from a cell of the set, all cells of the
node are in the set, since no crossing was marked in it. -/

namespace ParFlow.Geom

open FuelRun IntLoop GrGeomOctree

variable {level l r : ℕ} {t t' : GrGeomOctree} {c d : Cell} {f : Face}

/-! ## A change of the node that is found -/

section Modify

variable {F : GrGeomOctree → GrGeomOctree}

theorem setChild_eq_self (children : Fin 8 → GrGeomOctree) (m : Fin 8) : setChild children m (children m) = children := by
  funext i
  by_cases hi : i = m
  · rw [hi, setChild_self]
  · exact setChild_of_ne (Fin.val_ne_of_ne hi)

theorem modifyFound_of_fixed (h : F (findNode c l t).1 = (findNode c l t).1) : modifyFound F c l t = t := by
  induction l generalizing t with
  | zero => exact h
  | succ l ih =>
    cases t with
    | leaf flags faces => exact h
    | branch flags faces children =>
      rw [modifyFound, ih h, setChild_eq_self]

/-- In the same node the search goes on in what was made of it. -/
theorem findNode_modifyFound_same (h : SameBlock (findNode c l t).2 l c d) :
    findNode d l (modifyFound F c l t) = findNode d (findNode c l t).2 (F (findNode c l t).1) := by
  induction l generalizing t with
  | zero => rfl
  | succ l ih =>
    cases t with
    | leaf flags faces => rfl
    | branch flags faces children =>
      have hle := findNode_le c l (children (octant c l))
      rw [modifyFound, findNode, ← h l hle (Nat.lt_succ_self l), setChild_self]
      exact ih fun b hb hbl => h b hb (hbl.trans (Nat.lt_succ_self l))

theorem findNode_modifyFound_other (h : ¬ SameBlock (findNode c l t).2 l c d) :
    findNode d l (modifyFound F c l t) = findNode d l t := by
  induction l generalizing t with
  | zero => exact absurd (fun b _ hb => absurd hb (Nat.not_lt_zero b)) h
  | succ l ih =>
    cases t with
    | leaf flags faces =>
      refine absurd (fun b hb hbl => ?_) h
      exact absurd hb (Nat.not_le.mpr hbl)
    | branch flags faces children =>
      rw [modifyFound, findNode]
      by_cases hl : octant c l = octant d l
      · rw [← hl, setChild_self, findNode, ← hl]
        apply ih
        intro hbelow
        apply h
        intro b hb hbl
        rcases Nat.lt_succ_iff_lt_or_eq.mp hbl with hbl | rfl
        · exact hbelow b hb hbl
        · exact hl
      · rw [setChild_of_ne (Fin.val_ne_of_ne (Ne.symm hl))]
        rfl

theorem findNode_leaf (d : Cell) (r : ℕ) (flags : NodeFlags) (faces : BitVec 8) :
    findNode d r (leaf flags faces) = (leaf flags faces, r) := by cases r <;> rfl

end Modify

/-! ## Blocks -/

theorem ediv_eq_iff {i j : ℤ} : i / 2 ^ r = j / 2 ^ r ↔ j / 2 ^ r * 2 ^ r ≤ i ∧ i < j / 2 ^ r * 2 ^ r + 2 ^ r := by
  have hpos : (0 : ℤ) < 2 ^ r := by positivity
  constructor
  · intro h
    rw [← h]
    exact ⟨Int.ediv_mul_le i hpos.ne', by linarith [Int.lt_ediv_add_one_mul_self i hpos]⟩
  · rintro ⟨hlo, hhi⟩
    apply le_antisymm
    · apply Int.lt_add_one_iff.mp
      rw [Int.ediv_lt_iff_lt_mul hpos]
      linarith
    · rwa [Int.le_ediv_iff_mul_le hpos]

theorem maskBit_ediv (i : ℤ) (r b : ℕ) : maskBit (i / 2 ^ r) b = maskBit i (r + b) := by
  have hpow : (2 : ℤ) ^ (r + b) = 2 ^ r * 2 ^ b := pow_add 2 r b
  unfold maskBit
  rw [hpow, Int.ediv_ediv_of_nonneg (by positivity)]

theorem ediv_lt_of_lt {i : ℤ} (hr : r ≤ level) (hi : 0 ≤ i ∧ i < 2 ^ level) : 0 ≤ i / 2 ^ r ∧ i / 2 ^ r < 2 ^ (level - r) := by
  have hpos : (0 : ℤ) < 2 ^ r := by positivity
  constructor
  · exact Int.ediv_nonneg hi.1 hpos.le
  · rw [Int.ediv_lt_iff_lt_mul hpos, ← pow_add, Nat.sub_add_cancel hr]
    exact hi.2

/-- Cells in range are in one block when it has the same number along each axis. -/
theorem sameBlock_iff (hr : r ≤ level) (hc : ¬ OutOfRange c level) (hd : ¬ OutOfRange d level) :
    SameBlock r level c d ↔ ∀ a : Axis, a.coord c / 2 ^ r = a.coord d / 2 ^ r := by
  rw [not_outOfRange_iff] at hc hd
  have hbits : ∀ a : Axis, a.coord c / 2 ^ r = a.coord d / 2 ^ r ↔
      ∀ b < level - r, maskBit (a.coord c) (r + b) = maskBit (a.coord d) (r + b) := by
    intro a
    obtain ⟨hc0, hc1⟩ := ediv_lt_of_lt hr (hc a)
    obtain ⟨hd0, hd1⟩ := ediv_lt_of_lt hr (hd a)
    simp only [← maskBit_ediv]
    rw [maskBits_eq_iff, Int.emod_eq_of_lt hc0 hc1, Int.emod_eq_of_lt hd0 hd1]
  simp only [hbits]
  constructor
  · intro h a b hb
    exact octant_eq_iff.mp (h (r + b) (by omega) (by omega)) a
  · intro h b hb hbl
    rw [octant_eq_iff]
    intro a
    have hab := h a (b - r) (by omega)
    rwa [Nat.add_sub_cancel' hb] at hab

/-- The lower corner of the block of a cell. -/
def blockCorner (r : ℕ) (c : Cell) : Cell := (c.1 / 2 ^ r * 2 ^ r, c.2.1 / 2 ^ r * 2 ^ r, c.2.2 / 2 ^ r * 2 ^ r)

theorem inCube_block : InCube (blockCorner r c) (2 ^ r) d ↔ ∀ a : Axis, a.coord d / 2 ^ r = a.coord c / 2 ^ r := by
  rw [Axis.forall]
  simp only [ediv_eq_iff]
  exact Iff.rfl

theorem inRange_block (hr : r ≤ level) (hc : ¬ OutOfRange c level)
    (h : ∀ a : Axis, a.coord d / 2 ^ r = a.coord c / 2 ^ r) : ¬ OutOfRange d level := by
  rw [not_outOfRange_iff] at hc ⊢
  intro a
  have hpos : (0 : ℤ) < 2 ^ r := by positivity
  obtain ⟨h0, h1⟩ := ediv_lt_of_lt hr (hc a)
  rw [← h a] at h0 h1
  constructor
  · exact (Int.ediv_nonneg_iff_of_pos hpos).mp h0
  · rwa [Int.ediv_lt_iff_lt_mul hpos, ← pow_add, Nat.sub_add_cancel hr] at h1

theorem FaceAdjacent.across (h : FaceAdjacent c d) : ∃ f, d = across f c := by
  obtain ⟨x, y, z⟩ := c
  obtain ⟨x', y', z'⟩ := d
  unfold FaceAdjacent at h
  dsimp only at h
  have hcases : x' = x - 1 ∧ y' = y ∧ z' = z ∨ x' = x + 1 ∧ y' = y ∧ z' = z ∨ x' = x ∧ y' = y - 1 ∧ z' = z ∨
      x' = x ∧ y' = y + 1 ∧ z' = z ∨ x' = x ∧ y' = y ∧ z' = z - 1 ∨ x' = x ∧ y' = y ∧ z' = z + 1 := by
    rcases abs_cases (x - x') with hx | hx <;> rcases abs_cases (y - y') with hy | hy <;>
      rcases abs_cases (z - z') with hz | hz <;> omega
  rcases hcases with ⟨rfl, rfl, rfl⟩ | ⟨rfl, rfl, rfl⟩ | ⟨rfl, rfl, rfl⟩ | ⟨rfl, rfl, rfl⟩ | ⟨rfl, rfl, rfl⟩ | ⟨rfl, rfl, rfl⟩
  · exact ⟨.L, rfl⟩
  · exact ⟨.R, rfl⟩
  · exact ⟨.D, rfl⟩
  · exact ⟨.U, rfl⟩
  · exact ⟨.B, rfl⟩
  · exact ⟨.F, rfl⟩

/-! ## The invariant -/

/-- The octree of a set of cells between the sweeps and the end of the fill. Cells of the set may still be empty, but not
at a crossing. -/
structure Filling (level : ℕ) (Ind : Cell → Prop) (t : GrGeomOctree) : Prop where
  leaf : ∀ c, (foundNode level t c).nodeIsLeaf
  above : ∀ c, 0 < (findNode c level t).2 → (foundNode level t c).flags = nodeEmpty ∨ (foundNode level t c).flags = nodeFull
  crossing : ∀ p f, Ind p → ¬ Ind (across f p) → (foundNode level t p).flags ≠ nodeEmpty ∧
    (¬ OutOfRange (across f p) level → (foundNode level t (across f p)).flags ≠ nodeEmpty)
  solid : ∀ c, Ind c → (foundNode level t c).flags = nodeEmpty ∨ (foundNode level t c).flags = nodeFull ∨
    (foundNode level t c).flags = nodeInside
  outer : ∀ c, ¬ OutOfRange c level → ¬ Ind c →
    (foundNode level t c).flags = nodeEmpty ∨ (foundNode level t c).flags = nodeOutside
  face : ∀ c, Ind c → (foundNode level t c).flags = nodeInside →
    ∀ f, (foundNode level t c).hasFace f ↔ ¬ Ind (across f c)

variable {s : IndicatorSweep} {num : Axis → ℤ} {Ind : Cell → Prop} {ms : List Mark}

/-- The crossings show in what is found for a cell of the set. -/
theorem SweepsOver.filling (h : SweepsOver s num Ind) (hmark : MarkedBy s.level ms t)
    (hms : ∀ m, m ∈ ms ↔ CrossingMark Ind m) : Filling s.level Ind t := by
  have hself : ∀ c f, Ind c → ¬ Ind (across f c) → (foundNode s.level t c).flags = nodeInside := fun c f hc hf =>
    (hmark.inside c).mpr ⟨⟨c, nodeInside, f⟩, (hms _).mpr ⟨c, f, hc, hf, Or.inl rfl⟩, fun _ _ => rfl, rfl⟩
  constructor
  · exact hmark.leaf
  · intro c hstop
    rw [hmark.above c hstop]
    exact Or.inl rfl
  · intro p f hp hf
    constructor
    · rw [hself p f hp hf]
      decide
    · intro _ hempty
      exact (hmark.empty _).mp hempty ⟨across f p, nodeOutside, f.opposite⟩ ((hms _).mpr ⟨p, f, hp, hf, Or.inr rfl⟩)
        fun _ _ => rfl
  · intro c hc
    by_cases hempty : (foundNode s.level t c).flags = nodeEmpty
    · exact Or.inl hempty
    · rw [hmark.empty] at hempty
      push Not at hempty
      obtain ⟨m, hm, hhit⟩ := hempty
      exact Or.inr (Or.inr (hself c m.face hc (h.hit_across ((hms m).mp hm) hhit hc)))
  · intro c hrange hc
    rcases hmark.label c with hl | hl | hl
    · exact Or.inl hl
    · exact Or.inr hl
    · -- an inside mark can only be that of the cell itself
      obtain ⟨m, hm, hhit, hlabel⟩ := (hmark.inside c).mp hl
      obtain ⟨p, f, hp, -, rfl | rfl⟩ := (hms m).mp hm
      · exact absurd (eq_of_samePath (h.inRange hp) hrange hhit ▸ hp) hc
      · exact absurd hlabel (by dsimp only; decide)
  · intro c hc _ f
    rw [hmark.face]
    constructor
    · rintro ⟨m, hm, hhit, rfl⟩
      exact h.hit_across ((hms m).mp hm) hhit hc
    · intro hf
      exact ⟨⟨c, nodeInside, f⟩, (hms _).mpr ⟨c, f, hc, hf, Or.inl rfl⟩, fun _ _ => rfl, rfl⟩

/-- No crossing lies in a node that is still empty. -/
theorem Filling.uniform (h : Filling level Ind t) (hc : ¬ OutOfRange c level)
    (hempty : (foundNode level t c).flags = nodeEmpty) (hd : ¬ OutOfRange d level)
    (hblock : SameBlock (findNode c level t).2 level c d) : Ind c ↔ Ind d := by
  have hr := findNode_le c level t
  generalize hrem : (findNode c level t).2 = r at hr hblock
  have hsame : ∀ p, InCube (blockCorner r c) (2 ^ r) p → (foundNode level t p).flags = nodeEmpty := by
    intro p hp
    rw [inCube_block] at hp
    have hpath : SameBlock r level c p := (sameBlock_iff hr hc (inRange_block hr hc hp)).mpr fun a => (hp a).symm
    rw [← hempty]
    exact congrArg (fun x => x.1.flags) (findNode_same (hrem ▸ hpath))
  have hstep : ∀ p q, InCube (blockCorner r c) (2 ^ r) p → FaceAdjacent p q → Ind p → Ind q := by
    intro p q hp hadj hind
    obtain ⟨f, rfl⟩ := hadj.across
    by_contra hq
    exact (h.crossing p f hind hq).1 (hsame p hp)
  have hconn : ∀ {p}, InCube (blockCorner r c) (2 ^ r) p → (Ind (blockCorner r c) ↔ Ind p) := by
    intro p hp
    apply cube_connected (fun p q hp hq hadj => ?_) hp
    exact ⟨hstep p q hp hadj, hstep q p hq hadj.symm⟩
  have hself : InCube (blockCorner r c) (2 ^ r) c := inCube_block.mpr fun _ => rfl
  have hother : InCube (blockCorner r c) (2 ^ r) d := inCube_block.mpr fun a => ((sameBlock_iff hr hc hd).mp hblock a).symm
  exact (hconn hself).symm.trans (hconn hother)

/-! ## One step -/

section Step

variable {minL : ℤ} {newLevel : ℕ} {node : GrGeomOctree}

theorem fillNode_of_full (hfull : node.flags = nodeFull) : s.fillNode minL newLevel node = node := by
  have hnode : node.nodeIsFull := congrArg NodeFlags.full hfull
  unfold IndicatorSweep.fillNode
  rw [if_neg (not_not.mpr hnode)]

theorem fillNode_of_not_empty (hempty : ¬ node.nodeIsEmpty) : s.fillNode minL s.level node = node := by
  unfold IndicatorSweep.fillNode
  rw [if_pos (Or.inl rfl), if_neg hempty, ite_self]

/-- An empty node is full afterwards, or has full children where it is larger than a cell. -/
theorem findNode_fillNode (hleaf : node.nodeIsLeaf) (hempty : node.flags = nodeEmpty) (hr : newLevel = s.level ∨ 0 < r)
    (d : Cell) : (findNode d r (s.fillNode minL newLevel node)).1.flags = nodeFull ∧
      (findNode d r (s.fillNode minL newLevel node)).1.nodeIsLeaf := by
  cases node with
  | branch flags faces children => exact absurd hleaf Bool.false_ne_true
  | leaf flags faces =>
    obtain rfl : flags = nodeEmpty := hempty
    unfold IndicatorSweep.fillNode
    rw [if_pos (show ¬ (leaf nodeEmpty faces).nodeIsFull from Bool.false_ne_true)]
    split_ifs with hlevel hnode
    · rw [setLeafFlag, findNode_leaf]
      exact ⟨rfl, rfl⟩
    · exact absurd rfl hnode
    · obtain ⟨r, rfl⟩ : ∃ n, r = n + 1 := ⟨r - 1, by omega⟩
      rw [IndicatorSweep.fullChildren, findNode]
      unfold newOctreeChildren newOctree setLeafFlag
      rw [findNode_leaf]
      exact ⟨rfl, rfl⟩

theorem Filling.not_nodeIsEmpty (h : Filling level Ind t) (hc : ¬ OutOfRange c level)
    (hempty : (foundNode level t c).flags ≠ nodeEmpty) : ¬ (foundNode level t c).nodeIsEmpty := by
  unfold nodeIsEmpty
  by_cases hind : Ind c
  · rcases h.solid c hind with hl | hl | hl
    · exact absurd hl hempty
    · rw [hl]
      decide
    · rw [hl]
      decide
  · rcases h.outer c hc hind with hl | hl
    · exact absurd hl hempty
    · rw [hl]
      decide

/-- No cell that is not empty becomes empty. -/
def KeepsCells (level : ℕ) (t t' : GrGeomOctree) : Prop :=
  ∀ d, (foundNode level t d).flags ≠ nodeEmpty → (foundNode level t' d).flags ≠ nodeEmpty

/-- Where an empty node is reached in a cell of the set, its cells are full afterwards, and nothing else changes. -/
theorem Filling.fillStep (h : Filling s.level Ind t) (hc : ¬ OutOfRange c s.level)
    (hind : (foundNode s.level t c).flags = nodeEmpty → Ind c) (minL : ℤ) :
    let t' := modifyFound (s.fillNode minL (s.level - (findNode c s.level t).2)) c s.level t
    Filling s.level Ind t' ∧ KeepsCells s.level t t' ∧
      ∀ d, SameBlock (findNode c s.level t).2 s.level c d → (foundNode s.level t' d).flags ≠ nodeEmpty := by
  have hsame : ∀ {d}, SameBlock (findNode c s.level t).2 s.level c d → foundNode s.level t d = foundNode s.level t c :=
    fun hd => congrArg Prod.fst (findNode_same hd)
  by_cases hempty : (foundNode s.level t c).flags = nodeEmpty
  · intro t'
    have hle := findNode_le c s.level t
    have hchanged : ∀ {d}, SameBlock (findNode c s.level t).2 s.level c d →
        (foundNode s.level t' d).flags = nodeFull ∧ (foundNode s.level t' d).nodeIsLeaf := by
      intro d hd
      show (findNode d s.level t').1.flags = nodeFull ∧ (findNode d s.level t').1.nodeIsLeaf
      rw [findNode_modifyFound_same hd]
      exact findNode_fillNode (h.leaf c) hempty (by omega) d
    have hkept : ∀ {d}, ¬ SameBlock (findNode c s.level t).2 s.level c d → findNode d s.level t' = findNode d s.level t :=
      fun hd => findNode_modifyFound_other hd
    have hfull : nodeFull ≠ nodeEmpty := by decide
    have hmono : KeepsCells s.level t t' := by
      intro d hd
      by_cases hblock : SameBlock (findNode c s.level t).2 s.level c d
      · rw [(hchanged hblock).1]
        exact hfull
      · unfold foundNode
        rwa [hkept hblock]
    refine ⟨?_, hmono, fun d hd => ?_⟩
    · constructor
      · intro d
        by_cases hblock : SameBlock (findNode c s.level t).2 s.level c d
        · exact (hchanged hblock).2
        · unfold foundNode
          rw [hkept hblock]
          exact h.leaf d
      · intro d hstop
        by_cases hblock : SameBlock (findNode c s.level t).2 s.level c d
        · exact Or.inr (hchanged hblock).1
        · unfold foundNode
          rw [hkept hblock] at hstop ⊢
          exact h.above d hstop
      · intro p f hp hf
        obtain ⟨h1, h2⟩ := h.crossing p f hp hf
        exact ⟨hmono p h1, fun hrange => hmono _ (h2 hrange)⟩
      · intro d hd
        by_cases hblock : SameBlock (findNode c s.level t).2 s.level c d
        · exact Or.inr (Or.inl (hchanged hblock).1)
        · unfold foundNode
          rw [hkept hblock]
          exact h.solid d hd
      · intro d hrange hd
        by_cases hblock : SameBlock (findNode c s.level t).2 s.level c d
        · exact absurd ((h.uniform hc hempty hrange hblock).mp (hind hempty)) hd
        · unfold foundNode
          rw [hkept hblock]
          exact h.outer d hrange hd
      · intro d hd hinside
        by_cases hblock : SameBlock (findNode c s.level t).2 s.level c d
        · rw [(hchanged hblock).1] at hinside
          exact absurd hinside (by decide)
        · unfold foundNode at hinside ⊢
          rw [hkept hblock] at hinside ⊢
          exact h.face d hd hinside
    · rw [(hchanged hd).1]
      exact hfull
  · -- full nodes and marked cells stay as they are
    have hfixed : s.fillNode minL (s.level - (findNode c s.level t).2) (findNode c s.level t).1 = (findNode c s.level t).1 := by
      rcases Nat.eq_zero_or_pos (findNode c s.level t).2 with hzero | hpos
      · rw [hzero, Nat.sub_zero]
        exact fillNode_of_not_empty (h.not_nodeIsEmpty hc hempty)
      · exact fillNode_of_full ((h.above c hpos).resolve_left hempty)
    rw [modifyFound_of_fixed hfixed]
    refine ⟨h, fun d hd => hd, fun d hd => ?_⟩
    rw [hsame hd]
    exact hempty

end Step

end ParFlow.Geom
