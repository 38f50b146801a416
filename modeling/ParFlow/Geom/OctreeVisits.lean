import ParFlow.Grid.SubgridCells
import ParFlow.Geom.OctreeDefs
import ParFlow.Geom.CellDefs
import ParFlow.Geom.OctreeCells

/-! What the octree loops visit. A cell of the region is visited with what the octree
holds for it, and no cell is visited from two nodes, since octants are disjoint cubes. -/

namespace ParFlow.Geom

open FuelRun TreeWalk IntLoop GrGeomOctree

variable {β : Type} {stops emits : GrGeomOctree → Bool} {body : GrGeomOctree → Cell → List β} {cellOf : β → Cell}
  {n : ℕ} {node : GrGeomOctree} {o c : Cell} {b : β} {region : Subgrid}

/-! ## Cubes -/

/-- The cells of a cube with the lower corner `o`. -/
def InCube (o : Cell) (inc : ℤ) (c : Cell) : Prop :=
  (o.1 ≤ c.1 ∧ c.1 < o.1 + inc) ∧ (o.2.1 ≤ c.2.1 ∧ c.2.1 < o.2.1 + inc) ∧ o.2.2 ≤ c.2.2 ∧ c.2.2 < o.2.2 + inc

/-- The lower corner of an octant of a cube with side `2 ^ (n + 1)`. -/
def octantCorner (n : ℕ) (o : Cell) (m : ℕ) : Cell := (Origin.down ⟨o, 2 ^ (n + 1)⟩ m).cell

theorem down_eq (n : ℕ) (o : Cell) (m : ℕ) : Origin.down ⟨o, 2 ^ (n + 1)⟩ m = ⟨octantCorner n o m, 2 ^ n⟩ := by
  have h : (2 : ℤ) ^ (n + 1) / 2 = 2 ^ n := by omega
  simp only [octantCorner, Origin.down, h]

theorem octantCorner_eq (n : ℕ) (o : Cell) (m : ℕ) : octantCorner n o m =
    (o.1 + 2 ^ n * (octantOffset m).1, o.2.1 + 2 ^ n * (octantOffset m).2.1, o.2.2 + 2 ^ n * (octantOffset m).2.2) := by
  have h : (2 : ℤ) ^ (n + 1) / 2 = 2 ^ n := by omega
  simp only [octantCorner, Origin.down, h]

theorem octantOffset_bit (m : ℕ) : ((octantOffset m).1 = 0 ∨ (octantOffset m).1 = 1) ∧
    ((octantOffset m).2.1 = 0 ∨ (octantOffset m).2.1 = 1) ∧ ((octantOffset m).2.2 = 0 ∨ (octantOffset m).2.2 = 1) := by
  simp only [octantOffset]
  refine ⟨?_, ?_, ?_⟩ <;> split_ifs <;> simp

theorem octantOffset_inj {m m' : ℕ} (hm : m < 8) (hm' : m' < 8) (h : octantOffset m = octantOffset m') : m = m' := by
  have hinj : ∀ m < 8, ∀ m' < 8, octantOffset m = octantOffset m' → m = m' := by decide
  exact hinj m hm m' hm' h

theorem inCube_of_octant {m : ℕ} (h : InCube (octantCorner n o m) (2 ^ n) c) : InCube o (2 ^ (n + 1)) c := by
  obtain ⟨hx, hy, hz⟩ := octantOffset_bit m
  simp only [InCube, octantCorner_eq] at h
  simp only [InCube, pow_succ]
  rcases hx with hx | hx <;> rcases hy with hy | hy <;> rcases hz with hz | hz <;>
    simp only [hx, hy, hz, mul_zero, mul_one] at h <;> omega

/-- Different octants have no cell in common. -/
theorem octant_unique {m m' : ℕ} (hm : m < 8) (hm' : m' < 8) (h : InCube (octantCorner n o m) (2 ^ n) c)
    (h' : InCube (octantCorner n o m') (2 ^ n) c) : m = m' := by
  obtain ⟨hx, hy, hz⟩ := octantOffset_bit m
  obtain ⟨hx', hy', hz'⟩ := octantOffset_bit m'
  simp only [InCube, octantCorner_eq] at h h'
  have haxis : ∀ {p s t i : ℤ}, (s = 0 ∨ s = 1) → (t = 0 ∨ t = 1) → p + 2 ^ n * s ≤ i ∧ i < p + 2 ^ n * s + 2 ^ n →
      p + 2 ^ n * t ≤ i ∧ i < p + 2 ^ n * t + 2 ^ n → s = t := by
    intro p s t i hs ht h1 h2
    rcases hs with rfl | rfl <;> rcases ht with rfl | rfl <;> simp only [mul_zero, mul_one] at h1 h2 <;> omega
  exact octantOffset_inj hm hm' (Prod.ext (haxis hx hx' h.1 h'.1)
    (Prod.ext (haxis hy hy' h.2.1 h'.2.1) (haxis hz hz' h.2.2 h'.2.2)))

/-! ## Face bits -/

theorem Face.index_lt_eight (f : Face) : f.index < 8 := by cases f <;> decide

theorem Face.index_inj {f g : Face} (h : f.index = g.index) : f = g := by
  cases f <;> cases g <;> first | rfl | exact absurd h (by decide)

/-- A bit that is masked out. -/
theorem and_bit {w i : ℕ} (x : BitVec w) (hi : i < w) : x &&& (1#w <<< i) ≠ 0 ↔ x.getLsbD i := by
  have htwo : 1#w <<< i = BitVec.twoPow w i := rfl
  rw [htwo, BitVec.and_twoPow]
  split_ifs with h
  · refine iff_of_true (fun h0 => ?_) h
    have := congrArg (fun y => BitVec.getLsbD y i) h0
    simp [hi] at this
  · exact iff_of_false (fun h0 => h0 rfl) h

theorem hasFace_iff (node : GrGeomOctree) (f : Face) : node.hasFace f ↔ node.faces.getLsbD f.index := by
  unfold hasFace
  rw [decide_eq_true_iff]
  exact and_bit node.faces f.index_lt_eight

/-! ## What an octree holds -/

/-- What the body is run with below a node at the corner `o` with side `2 ^ n`, in any region. -/
def Occurs (stops emits : GrGeomOctree → Bool) (body : GrGeomOctree → Cell → List β) :
    ℕ → GrGeomOctree → Cell → β → Prop
  | 0, node, o, b => emits node ∧ b ∈ body node o
  | n + 1, node, o, b =>
    if node.nodeIsLeaf || stops node then emits node ∧ ∃ c, InCube o (2 ^ (n + 1)) c ∧ b ∈ body node c
    else ∃ m < 8, Occurs stops emits body n (node.child m) (octantCorner n o m) b

/-- The body is run with values that tell their cell. -/
def TellsCell (body : GrGeomOctree → Cell → List β) (cellOf : β → Cell) : Prop :=
  ∀ node c, ∀ b ∈ body node c, cellOf b = c

theorem Occurs.inCube (hbody : TellsCell body cellOf) (h : Occurs stops emits body n node o b) :
    InCube o (2 ^ n) (cellOf b) := by
  induction n generalizing node o with
  | zero =>
    obtain ⟨-, hb⟩ := h
    rw [hbody node o b hb]
    simp only [InCube]
    omega
  | succ n ih =>
    rw [Occurs] at h
    split_ifs at h with hs
    · obtain ⟨-, c, hc, hb⟩ := h
      rw [hbody node c b hb]
      exact hc
    · obtain ⟨m, -, hm⟩ := h
      exact inCube_of_octant (ih hm)

/-! ## Visits -/

theorem mem_regionCodeBody {inc : ℤ} :
    b ∈ regionCodeBody region body node ⟨o, inc⟩ ↔ ∃ c, (c ∈ region.cells ∧ InCube o inc c) ∧ b ∈ body node c := by
  simp only [regionCodeBody, List.mem_flatMap, mem_nest, mem_upto, Subregion.mem_cells_iff, InCube, max_le_iff, lt_min_iff]
  refine exists_congr fun c => and_congr_left fun _ => ?_
  constructor
  · rintro ⟨⟨⟨hx, hox⟩, hx', hox'⟩, ⟨⟨hy, hoy⟩, hy', hoy'⟩, ⟨hz, hoz⟩, hz', hoz'⟩
    exact ⟨⟨⟨hx, hx'⟩, ⟨hy, hy'⟩, hz, hz'⟩, ⟨hox, hox'⟩, ⟨hoy, hoy'⟩, hoz, hoz'⟩
  · rintro ⟨⟨⟨hx, hx'⟩, ⟨hy, hy'⟩, hz, hz'⟩, ⟨hox, hox'⟩, ⟨hoy, hoy'⟩, hoz, hoz'⟩
    exact ⟨⟨⟨hx, hox⟩, hx', hox'⟩, ⟨⟨hy, hoy⟩, hy', hoy'⟩, ⟨hz, hoz⟩, hz', hoz'⟩

theorem octreeLoopTemplate_down (levelBody codeBody : NodeBody β) (p : Origin) (m : ℕ) :
    (octreeLoopTemplate stops emits levelBody codeBody).down p m = p.down m := rfl

theorem restores (levelBody codeBody : NodeBody β) :
    (octreeLoopTemplate stops emits levelBody codeBody).Restores fun n p => p.inc = 2 ^ n := by
  rintro n ⟨o, inc⟩ m rfl
  simp only [octreeLoopTemplate]
  rw [down_eq]
  refine ⟨rfl, ?_⟩
  simp only [Origin.up, octantCorner_eq, add_sub_cancel_right, pow_succ]

/-- Bodies that select in the same way at cells and at larger leaves select from what the octree holds. -/
theorem mem_visits_iff (sel : β → Prop) {levelBody codeBody : NodeBody β}
    (hlevel : ∀ node o b, b ∈ levelBody node ⟨o, 2 ^ 0⟩ ↔ sel b ∧ b ∈ body node o)
    (hcode : ∀ node n o b, b ∈ codeBody node ⟨o, 2 ^ (n + 1)⟩ ↔ sel b ∧ ∃ c, InCube o (2 ^ (n + 1)) c ∧ b ∈ body node c) :
    b ∈ (octreeLoopTemplate stops emits levelBody codeBody).visits n node ⟨o, 2 ^ n⟩ ↔
      sel b ∧ Occurs stops emits body n node o b := by
  induction n generalizing node o with
  | zero =>
    simp only [Walk.visits, octreeLoopTemplate, Occurs]
    split_ifs with he
    · rw [hlevel]
      exact and_congr_right fun _ => ⟨fun hb => ⟨he, hb⟩, And.right⟩
    · exact iff_of_false List.not_mem_nil fun h => he h.2.1
  | succ n ih =>
    simp only [Walk.visits, Occurs]
    simp only [octreeLoopTemplate]
    by_cases hs : node.nodeIsLeaf || stops node
    · rw [if_pos hs, if_pos hs]
      dsimp only
      split_ifs with he
      · rw [hcode]
        exact and_congr_right fun _ => ⟨fun hb => ⟨he, hb⟩, And.right⟩
      · exact iff_of_false List.not_mem_nil fun h => he h.2.1
    · rw [if_neg hs, if_neg hs]
      dsimp only
      rw [List.mem_flatMap]
      constructor
      · rintro ⟨m, hm, hb⟩
        rw [down_eq] at hb
        obtain ⟨hc, ho⟩ := ih.mp hb
        exact ⟨hc, m, List.mem_range.mp hm, ho⟩
      · rintro ⟨hc, m, hm, ho⟩
        refine ⟨m, List.mem_range.mpr hm, ?_⟩
        rw [down_eq]
        exact ih.mpr ⟨hc, ho⟩

/-- The region cuts its cells out of what the octree holds. -/
theorem mem_visits (hbody : TellsCell body cellOf) :
    b ∈ (octreeLoopTemplate stops emits (regionLevelBody region body) (regionCodeBody region body)).visits
        n node ⟨o, 2 ^ n⟩ ↔ cellOf b ∈ region.cells ∧ Occurs stops emits body n node o b := by
  apply mem_visits_iff fun b => cellOf b ∈ region.cells
  · intro node o b
    unfold regionLevelBody
    split_ifs with hr
    · constructor
      · intro hb
        rw [hbody node o b hb, Subregion.mem_cells_iff]
        exact ⟨by omega, hb⟩
      · exact And.right
    · apply iff_of_false List.not_mem_nil
      rintro ⟨hc, hb⟩
      rw [hbody node o b hb, Subregion.mem_cells_iff] at hc
      exact hr (by omega)
  · intro node n o b
    rw [mem_regionCodeBody]
    constructor
    · rintro ⟨c, ⟨hc, hcube⟩, hb⟩
      exact ⟨hbody node c b hb ▸ hc, c, hcube, hb⟩
    · rintro ⟨hc, c, hcube, hb⟩
      exact ⟨c, ⟨hbody node c b hb ▸ hc, hcube⟩, hb⟩

theorem regionCodeBody_nodup (hbody : TellsCell body cellOf) (hnd : ∀ node c, (body node c).Nodup) (p : Origin) :
    (regionCodeBody region body node p).Nodup := by
  refine List.nodup_flatMap.mpr ⟨fun c _ => hnd node c, ?_⟩
  refine (nest_nodup (upto_nodup _ _) (upto_nodup _ _) (upto_nodup _ _)).imp fun {c c'} hne => ?_
  rw [Function.onFun, List.disjoint_left]
  intro b hb hb'
  exact hne ((hbody node c b hb).symm.trans (hbody node c' b hb'))

/-- No cell is visited from two nodes. -/
theorem visits_nodup (hbody : TellsCell body cellOf) (hnd : ∀ node c, (body node c).Nodup) :
    ((octreeLoopTemplate stops emits (regionLevelBody region body) (regionCodeBody region body)).visits
      n node ⟨o, 2 ^ n⟩).Nodup := by
  induction n generalizing node o with
  | zero =>
    simp only [Walk.visits, octreeLoopTemplate, regionLevelBody]
    split_ifs
    · exact hnd node o
    · exact List.nodup_nil
    · exact List.nodup_nil
  | succ n ih =>
    simp only [Walk.visits]
    cases hat : (octreeLoopTemplate stops emits (regionLevelBody region body) (regionCodeBody region body)).atNode
        node ⟨o, 2 ^ (n + 1)⟩ with
    | some out =>
      simp only [octreeLoopTemplate] at hat
      split_ifs at hat with _ he
      · rw [← Option.some.inj hat]
        exact regionCodeBody_nodup hbody hnd _
      · rw [← Option.some.inj hat]
        exact List.nodup_nil
    | none =>
      refine List.nodup_flatMap.mpr ⟨fun m _ => ?_, ?_⟩
      · have hnode := @ih (node.child m) (octantCorner n o m)
        rw [← down_eq] at hnode
        exact hnode
      · refine List.nodup_range.imp_of_mem fun {m m'} hm hm' hne => ?_
        rw [Function.onFun, List.disjoint_left]
        intro b hb hb'
        rw [octreeLoopTemplate_down, down_eq] at hb hb'
        exact hne (octant_unique (List.mem_range.mp hm) (List.mem_range.mp hm')
          (((mem_visits hbody).mp hb).2.inCube hbody) (((mem_visits hbody).mp hb').2.inCube hbody))

/-! ## The loops -/

/-- What a loop over a region runs its body with: each value of the octree with its cell in the
region, once. -/
def Selects (cellOf : β → Cell) (holds : β → Prop) (region : Subgrid) (out : List β) : Prop :=
  out.Nodup ∧ ∀ b, b ∈ out ↔ cellOf b ∈ region.cells ∧ holds b

theorem Selects.perm {holds : β → Prop} {out out' : List β} (h : Selects cellOf holds region out)
    (h' : Selects cellOf holds region out') : out.Perm out' :=
  (List.perm_ext_iff_of_nodup h.1 h'.1).mpr fun b => (h.2 b).trans (h'.2 b).symm

theorem octreeInsideLoop_eq (levelBody codeBody : NodeBody β) : octreeInsideLoop levelBody codeBody =
    octreeLoopTemplate (fun node => !node.nodeIsInside) nodeIsInside levelBody codeBody := by
  simp only [octreeInsideLoop, octreeLoopTemplate, Walk.mk.injEq, true_and]
  funext node p
  by_cases hl : node.nodeIsLeaf <;> by_cases hi : node.nodeIsInside <;> simp [hl, hi]

theorem loopTemplate_selects (hbody : TellsCell body cellOf) (hnd : ∀ node c, (body node c).Nodup) (start : Cell)
    (octree : GrGeomOctree) (level : ℕ) (region : Subgrid) :
    ∃ out, Returns (fun fuel => (octreeLoopTemplate stops emits (regionLevelBody region body)
        (regionCodeBody region body)).walk level fuel octree ⟨start, 2 ^ level⟩) out ∧
      Selects cellOf (Occurs stops emits body level octree start) region out :=
  ⟨_, Walk.walk_returns (restores _ _) level octree ⟨start, 2 ^ level⟩ rfl, visits_nodup hbody hnd,
    fun _ => mem_visits hbody⟩

/-- The interior cells of an octree. -/
def InteriorCell (octree : GrGeomOctree) (level : ℕ) (start : Cell) : Cell → Prop :=
  Occurs nodeIsFull (fun node => node.nodeIsInside || node.nodeIsFull) (fun _ c => [c]) level octree start

theorem octreeInteriorNodeLoop_selects (start : Cell) (octree : GrGeomOctree) (level : ℕ) (region : Subgrid) :
    ∃ out, Returns (fun fuel => octreeInteriorNodeLoop fuel start octree level region fun _ c => [c]) out ∧
      Selects id (InteriorCell octree level start) region out :=
  loopTemplate_selects (fun _ _ _ hb => List.mem_singleton.mp hb) (fun _ c => List.nodup_singleton c) _ _ _ _

/-- The exterior cells of an octree. -/
def ExteriorCell (octree : GrGeomOctree) (level : ℕ) (start : Cell) : Cell → Prop :=
  Occurs nodeIsEmpty (fun node => node.nodeIsOutside || node.nodeIsEmpty) (fun _ c => [c]) level octree start

theorem octreeExteriorNodeLoop_selects (start : Cell) (octree : GrGeomOctree) (level : ℕ) (region : Subgrid) :
    ∃ out, Returns (fun fuel => octreeExteriorNodeLoop fuel start octree level region fun _ c => [c]) out ∧
      Selects id (ExteriorCell octree level start) region out :=
  loopTemplate_selects (fun _ _ _ hb => List.mem_singleton.mp hb) (fun _ c => List.nodup_singleton c) _ _ _ _

/-- The faces an octree holds, with their cells. -/
def FaceOf (octree : GrGeomOctree) (level : ℕ) (start : Cell) : Cell × Face → Prop :=
  Occurs (fun node => !node.nodeIsInside) nodeIsInside
    (fun node c => (Face.all.filter node.hasFace).map fun f => (c, f)) level octree start

theorem octreeFaceLoop_selects (start : Cell) (octree : GrGeomOctree) (level : ℕ) (region : Subgrid) :
    ∃ out, Returns (fun fuel => octreeFaceLoop fuel start octree level region) out ∧
      Selects Prod.fst (FaceOf octree level start) region out := by
  simp only [octreeFaceLoop, octreeInsideNodeLoop, octreeInsideLoop_eq]
  refine loopTemplate_selects (fun node c b hb => ?_) (fun node c => ?_) _ _ _ _
  · obtain ⟨f, -, rfl⟩ := List.mem_map.mp hb
    rfl
  · exact ((by decide : Face.all.Nodup).filter _).map fun f f' h => (Prod.mk.inj h).2

end ParFlow.Geom

/-! An octree to which cells with faces are added, one after the other. What is found for a cell in the end tells of all
that was added for it. -/

namespace ParFlow.Geom

open GrGeomOctree

variable {level : ℕ} {t : GrGeomOctree} {c d : Cell} {f g : Face}

/-! ## One cell -/

theorem setFace_nodeIsLeaf (node : GrGeomOctree) : (setFace f node).nodeIsLeaf = node.nodeIsLeaf := by cases node <;> rfl

theorem setFace_flags (node : GrGeomOctree) : (setFace f node).flags = node.flags := by cases node <;> rfl

theorem writeCell_nodeIsLeaf (cell : NodeFlags) (node : GrGeomOctree) :
    (writeCell cell node).nodeIsLeaf = node.nodeIsLeaf := by
  unfold writeCell
  split_ifs <;> cases node <;> rfl

theorem writeCell_faces (cell : NodeFlags) (node : GrGeomOctree) : (writeCell cell node).faces = node.faces := by
  unfold writeCell
  split_ifs <;> cases node <;> rfl

theorem setFace_hasFace (node : GrGeomOctree) : (setFace f node).hasFace g ↔ node.hasFace g ∨ g = f := by
  have hfaces : (setFace f node).faces = node.faces ||| (1#8 <<< f.index) := by cases node <;> rfl
  have htwo : 1#8 <<< f.index = BitVec.twoPow 8 f.index := rfl
  rw [hasFace_iff, hasFace_iff, hfaces, htwo, BitVec.getLsbD_or, BitVec.getLsbD_twoPow, Bool.or_eq_true]
  apply or_congr_right
  simp only [f.index_lt_eight, decide_true, Bool.true_and, decide_eq_true_eq]
  exact ⟨fun h => Face.index_inj h.symm, fun h => congrArg Face.index h.symm⟩

theorem hasFace_congr {node node' : GrGeomOctree} (h : node.faces = node'.faces) : node.hasFace f = node'.hasFace f := by
  unfold hasFace
  rw [h]

theorem newOctree_hasFace : ¬ newOctree.hasFace f := by cases f <;> decide

/-! ## Marks -/

/-- A cell that is added with a label and a face. -/
structure Mark where
  cell : Cell
  label : NodeFlags
  face : Face

def addMark (level : ℕ) (octree : GrGeomOctree) (m : Mark) : GrGeomOctree :=
  addCellFace octree m.label m.cell m.face level

def Mark.Hits (level : ℕ) (m : Mark) (c : Cell) : Prop := SamePath level m.cell c

/-- What is found for a cell. -/
def foundNode (level : ℕ) (t : GrGeomOctree) (c : Cell) : GrGeomOctree := (findNode c level t).1

/-- The marks `ms` were added to a new octree. Above the level there are only new nodes. -/
structure MarkedBy (level : ℕ) (ms : List Mark) (t : GrGeomOctree) : Prop where
  leaf : ∀ c, (foundNode level t c).nodeIsLeaf
  above : ∀ c, 0 < (findNode c level t).2 → foundNode level t c = newOctree
  label : ∀ c, (foundNode level t c).flags = nodeEmpty ∨ (foundNode level t c).flags = nodeOutside ∨
    (foundNode level t c).flags = nodeInside
  empty : ∀ c, (foundNode level t c).flags = nodeEmpty ↔ ∀ m ∈ ms, ¬ m.Hits level c
  inside : ∀ c, (foundNode level t c).flags = nodeInside ↔ ∃ m ∈ ms, m.Hits level c ∧ m.label = nodeInside
  face : ∀ c f, (foundNode level t c).hasFace f ↔ ∃ m ∈ ms, m.Hits level c ∧ m.face = f

theorem markedBy_newOctree (level : ℕ) : MarkedBy level [] newOctree := by
  have hnode : ∀ c, foundNode level newOctree c = newOctree := fun c => congrArg Prod.fst (findNode_newOctree c level)
  constructor
  · intro c
    rw [hnode]
    rfl
  · exact fun c _ => hnode c
  · intro c
    rw [hnode]
    exact Or.inl rfl
  · intro c
    rw [hnode]
    exact iff_of_true rfl fun m hm => absurd hm List.not_mem_nil
  · intro c
    rw [hnode]
    exact iff_of_false (by decide) fun h => by simp at h
  · intro c f
    rw [hnode]
    exact iff_of_false newOctree_hasFace fun h => by simp at h

/-- A search does not stop earlier after a cell was made. -/
theorem findNode_modifyCell_le (F : GrGeomOctree → GrGeomOctree) (c d : Cell) (l : ℕ) (t : GrGeomOctree) :
    (findNode d l (modifyCell F c l t)).2 ≤ (findNode d l t).2 := by
  induction l generalizing t with
  | zero => exact le_rfl
  | succ l ih =>
    rw [modifyCell, findNode]
    cases t with
    | leaf flags faces => exact (findNode_le _ _ _).trans (Nat.le_succ l)
    | branch flags faces children =>
      by_cases hl : octant d l = octant c l
      · rw [hl, setChild_self, findNode, hl]
        exact ih _
      · rw [setChild_of_ne (Fin.val_ne_of_ne hl)]
        exact le_rfl

section AddMark

variable {ms : List Mark} {m : Mark}

theorem MarkedBy.cellNode (h : MarkedBy level ms t) (c : Cell) : cellNode c level t = foundNode level t c := by
  rcases findNode_cases c level t with ⟨-, hnode⟩ | ⟨hstop, hnode, -⟩
  · exact hnode
  · rw [hnode, h.above c hstop]

theorem MarkedBy.find_hit (h : MarkedBy level ms t) (hhit : m.Hits level c) :
    findNode c level (addMark level t m) = (setFace m.face (writeCell m.label (foundNode level t c)), 0) := by
  have hsame : foundNode level t c = foundNode level t m.cell := congrArg Prod.fst (findNode_same hhit.block)
  unfold addMark addCellFace
  rw [findNode_modifyCell_self hhit, h.cellNode, hsame]

theorem MarkedBy.found_other (h : MarkedBy level ms t) (hmiss : ¬ m.Hits level c) :
    foundNode level (addMark level t m) c = foundNode level t c :=
  findNode_modifyCell_other id (h.cellNode m.cell).symm hmiss

theorem MarkedBy.addMark (h : MarkedBy level ms t) (hlabel : m.label = nodeInside ∨ m.label = nodeOutside) :
    MarkedBy level (ms ++ [m]) (addMark level t m) := by
  have hhit : ∀ {c}, m.Hits level c → foundNode level (Geom.addMark level t m) c =
      setFace m.face (writeCell m.label (foundNode level t c)) := fun hc => congrArg Prod.fst (h.find_hit hc)
  have hflags : ∀ {c}, m.Hits level c → (foundNode level (Geom.addMark level t m) c).flags =
      if (foundNode level t c).flags = nodeInside then nodeInside else m.label := by
    intro c hc
    rw [hhit hc, setFace_flags, writeCell_flags]
    rcases h.label c with hf | hf | hf <;> rw [hf] <;> rfl
  constructor
  · intro c
    by_cases hc : m.Hits level c
    · rw [hhit hc, setFace_nodeIsLeaf, writeCell_nodeIsLeaf]
      exact h.leaf c
    · rw [h.found_other hc]
      exact h.leaf c
  · intro c hstop
    by_cases hc : m.Hits level c
    · rw [h.find_hit hc] at hstop
      exact absurd hstop (lt_irrefl 0)
    · rw [h.found_other hc]
      exact h.above c (hstop.trans_le (findNode_modifyCell_le _ _ _ _ _))
  · intro c
    by_cases hc : m.Hits level c
    · rw [hflags hc]
      split_ifs
      · exact Or.inr (Or.inr rfl)
      · exact Or.inr hlabel.symm
    · rw [h.found_other hc]
      exact h.label c
  · intro c
    by_cases hc : m.Hits level c
    · apply iff_of_false
      · rw [hflags hc]
        split_ifs
        · decide
        · rcases hlabel with hl | hl <;> rw [hl] <;> decide
      · exact fun hall => hall m (by simp) hc
    · rw [h.found_other hc, h.empty]
      simp [or_imp, forall_and, hc]
  · intro c
    by_cases hc : m.Hits level c
    · rw [hflags hc]
      split_ifs with hin
      · obtain ⟨m', hm', hhit'⟩ := (h.inside c).mp hin
        exact iff_of_true rfl ⟨m', List.mem_append_left _ hm', hhit'⟩
      · constructor
        · exact fun hl => ⟨m, by simp, hc, hl⟩
        · rintro ⟨m', hm', hhit', hl⟩
          rcases List.mem_append.mp hm' with hm' | hm'
          · exact absurd ((h.inside c).mpr ⟨m', hm', hhit', hl⟩) hin
          · rw [← List.mem_singleton.mp hm', hl]
    · rw [h.found_other hc, h.inside]
      simp [or_and_right, exists_or, hc]
  · intro c f
    by_cases hc : m.Hits level c
    · rw [hhit hc, setFace_hasFace, hasFace_congr (writeCell_faces _ _), h.face]
      simp only [List.mem_append, List.mem_singleton, or_and_right, exists_or, exists_eq_left, hc, true_and]
      exact or_congr_right eq_comm
    · rw [h.found_other hc, h.face]
      simp [or_and_right, exists_or, hc]

end AddMark

theorem markedBy_foldl {ms : List Mark} (hlabel : ∀ m ∈ ms, m.label = nodeInside ∨ m.label = nodeOutside) :
    MarkedBy level ms (ms.foldl (addMark level) newOctree) := by
  induction ms using List.reverseRecOn with
  | nil => exact markedBy_newOctree level
  | append_singleton ms m ih =>
    rw [List.foldl_append]
    exact (ih fun m hm => hlabel m (List.mem_append_left _ hm)).addMark (hlabel _ (by simp))

end ParFlow.Geom
