import ParFlow.Geom.OctreeVisits
import ParFlow.Geom.BranchFlags

/-! The loops over the interior and over the exterior split the cells of an octree. Both stop
at branches that are flagged as full or empty, which is right when the labels of the leaves
show a boundary between all neighbouring interior and exterior cells. -/

namespace ParFlow.Geom

open FuelRun GrGeomOctree

variable {n : ℕ} {t t' : GrGeomOctree} {o c d : Cell} {f g : NodeFlags}

/-! ## The leaf of a cell -/

/-- No branch lies at depth `n` or below. -/
def Fits : ℕ → GrGeomOctree → Prop
  | _, leaf _ _ => True
  | 0, branch _ _ _ => False
  | n + 1, branch _ _ children => ∀ m, Fits n (children m)

/-- The cell `c` lies in a leaf with the flags `f` of the octree at `o` with side `2 ^ n`. -/
def LeafAt (n : ℕ) (t : GrGeomOctree) (o c : Cell) (f : NodeFlags) : Prop :=
  Occurs (fun _ => false) (fun _ => true) (fun node c => [(c, node.flags)]) n t o (c, f)

theorem inCube_one : InCube o 1 c ↔ c = o := by
  simp only [InCube, Prod.ext_iff]
  omega

theorem leafAt_leaf {flags : NodeFlags} {faces : BitVec 8} :
    LeafAt n (leaf flags faces) o c f ↔ InCube o (2 ^ n) c ∧ f = flags := by
  cases n with
  | zero =>
    rw [pow_zero, inCube_one]
    simp only [LeafAt, Occurs, List.mem_singleton, Prod.mk.injEq, true_and, GrGeomOctree.flags]
  | succ n =>
    simp only [LeafAt, Occurs, nodeIsLeaf, Bool.true_or, if_true, true_and, List.mem_singleton, Prod.mk.injEq,
      GrGeomOctree.flags]
    constructor
    · rintro ⟨d, hd, rfl, rfl⟩
      exact ⟨hd, rfl⟩
    · rintro ⟨hc, rfl⟩
      exact ⟨c, hc, rfl, rfl⟩

theorem leafAt_branch {flags : NodeFlags} {faces : BitVec 8} {children : Fin 8 → GrGeomOctree} :
    LeafAt (n + 1) (branch flags faces children) o c f ↔ ∃ m : Fin 8, LeafAt n (children m) (octantCorner n o m) c f := by
  simp only [LeafAt, Occurs, nodeIsLeaf, Bool.or_false, Bool.false_eq_true, if_false, child]
  constructor
  · rintro ⟨m, hm, h⟩
    rw [dif_pos (show m < numChildren from hm)] at h
    exact ⟨⟨m, hm⟩, h⟩
  · rintro ⟨m, h⟩
    refine ⟨m, m.isLt, ?_⟩
    rw [dif_pos (show m.val < numChildren from m.isLt)]
    exact h

theorem LeafAt.inCube (h : LeafAt n t o c f) : InCube o (2 ^ n) c := by
  have htells : TellsCell (fun node c => [(c, node.flags)]) Prod.fst := by
    intro node c b hb
    rw [List.mem_singleton.mp hb]
  exact Occurs.inCube htells h

/-- The octants cover the cube. -/
theorem exists_octant (h : InCube o (2 ^ (n + 1)) c) : ∃ m : Fin 8, InCube (octantCorner n o m) (2 ^ n) c := by
  have hbits : ∀ x y z : Bool, ∃ m : Fin 8, octantOffset m = (if x then 1 else 0, if y then 1 else 0, if z then 1 else 0) := by
    decide
  obtain ⟨m, hm⟩ := hbits (decide (o.1 + 2 ^ n ≤ c.1)) (decide (o.2.1 + 2 ^ n ≤ c.2.1)) (decide (o.2.2 + 2 ^ n ≤ c.2.2))
  use m
  rw [octantCorner_eq, hm]
  simp only [InCube, pow_succ, decide_eq_true_eq] at h ⊢
  refine ⟨?_, ?_, ?_⟩ <;> split_ifs <;> simp only [mul_one, mul_zero] <;> omega

theorem exists_leafAt (hfits : Fits n t) (h : InCube o (2 ^ n) c) : ∃ f, LeafAt n t o c f := by
  induction n generalizing t o with
  | zero =>
    cases t with
    | leaf flags faces => exact ⟨flags, leafAt_leaf.mpr ⟨h, rfl⟩⟩
    | branch flags faces children => exact absurd hfits id
  | succ n ih =>
    cases t with
    | leaf flags faces => exact ⟨flags, leafAt_leaf.mpr ⟨h, rfl⟩⟩
    | branch flags faces children =>
      obtain ⟨m, hm⟩ := exists_octant h
      obtain ⟨f, hf⟩ := ih (hfits m) hm
      exact ⟨f, leafAt_branch.mpr ⟨m, hf⟩⟩

/-- A cell lies in one leaf only. -/
theorem LeafAt.unique (hfits : Fits n t) (hf : LeafAt n t o c f) (hg : LeafAt n t o c g) : f = g := by
  induction n generalizing t o with
  | zero =>
    cases t with
    | leaf flags faces => exact (leafAt_leaf.mp hf).2.trans (leafAt_leaf.mp hg).2.symm
    | branch flags faces children => exact absurd hfits id
  | succ n ih =>
    cases t with
    | leaf flags faces => exact (leafAt_leaf.mp hf).2.trans (leafAt_leaf.mp hg).2.symm
    | branch flags faces children =>
      obtain ⟨m, hm⟩ := leafAt_branch.mp hf
      obtain ⟨m', hm'⟩ := leafAt_branch.mp hg
      obtain rfl : m = m' := Fin.ext (octant_unique m.isLt m'.isLt hm.inCube hm'.inCube)
      exact ih (hfits m) hm hm'

theorem LeafAt.of_allLeaves {p : NodeFlags → Prop} (hfits : Fits n t) (h : LeafAt n t o c f) (hp : AllLeaves p t) :
    p f := by
  induction n generalizing t o with
  | zero =>
    cases t with
    | leaf flags faces => exact (leafAt_leaf.mp h).2 ▸ hp
    | branch flags faces children => exact absurd hfits id
  | succ n ih =>
    cases t with
    | leaf flags faces => exact (leafAt_leaf.mp h).2 ▸ hp
    | branch flags faces children =>
      obtain ⟨m, hm⟩ := leafAt_branch.mp h
      exact ih (hfits m) hm (hp m)

theorem LeafAt.hasLeaf {p : NodeFlags → Prop} (hfits : Fits n t) (h : LeafAt n t o c f) (hp : p f) : HasLeaf p t := by
  by_contra hno
  have hall : AllLeaves (fun f => ¬ p f) t := allLeaves_iff.mpr fun hleaf => hno (hleaf.mono fun f hf => not_not.mp hf)
  exact h.of_allLeaves hfits hall hp

/-- Every leaf has cells. -/
theorem HasLeaf.exists_cell {p : NodeFlags → Prop} (hfits : Fits n t) (h : HasLeaf p t) (o : Cell) :
    ∃ c f, LeafAt n t o c f ∧ p f := by
  induction n generalizing t o with
  | zero =>
    cases t with
    | leaf flags faces => exact ⟨o, flags, leafAt_leaf.mpr ⟨by simp [InCube], rfl⟩, h⟩
    | branch flags faces children => exact absurd hfits id
  | succ n ih =>
    cases t with
    | leaf flags faces => exact ⟨o, flags, leafAt_leaf.mpr ⟨by simp [InCube], rfl⟩, h⟩
    | branch flags faces children =>
      obtain ⟨m, hm⟩ := h
      obtain ⟨c, f, hc, hf⟩ := ih (hfits m) hm (octantCorner n o m)
      exact ⟨c, f, leafAt_branch.mpr ⟨m, hc⟩, hf⟩

/-! ## The boundary -/

def FaceAdjacent (c d : Cell) : Prop := |c.1 - d.1| + |c.2.1 - d.2.1| + |c.2.2 - d.2.2| = 1

theorem FaceAdjacent.symm (h : FaceAdjacent c d) : FaceAdjacent d c := by
  rw [FaceAdjacent, abs_sub_comm d.1, abs_sub_comm d.2.1, abs_sub_comm d.2.2]
  exact h

/-- Of two neighbouring cells, one in the solid and one outside of it, the first is labeled as inside
and the second as outside boundary. -/
def BoundaryLabeled (n : ℕ) (t : GrGeomOctree) (o : Cell) : Prop :=
  ∀ c d f g, FaceAdjacent c d → LeafAt n t o c f → LeafAt n t o d g → f.Interior → g.Exterior → f.inside ∧ g.outside

theorem line_connected {Q : ℤ → Prop} {lo hi : ℤ} (h : ∀ i, lo ≤ i → i + 1 < hi → (Q i ↔ Q (i + 1))) {i : ℤ}
    (hlo : lo ≤ i) (hhi : i < hi) : Q lo ↔ Q i := by
  induction i, hlo using Int.leInduction with
  | base => exact Iff.rfl
  | succ i hi' ih => exact (ih (by omega)).trans (h i hi' hhi)

/-- What does not change between neighbouring cells is the same on the whole cube. -/
theorem cube_connected {P : Cell → Prop} {side : ℤ}
    (h : ∀ c d, InCube o side c → InCube o side d → FaceAdjacent c d → (P c ↔ P d)) (hc : InCube o side c) :
    P o ↔ P c := by
  obtain ⟨x, y, z⟩ := c
  obtain ⟨ox, oy, oz⟩ := o
  simp only [InCube] at h hc
  have hx : P (ox, oy, oz) ↔ P (x, oy, oz) := by
    apply line_connected (Q := fun i => P (i, oy, oz)) _ hc.1.1 hc.1.2
    intro i hi hi'
    apply h _ _ (by dsimp only; omega) (by dsimp only; omega)
    simp [FaceAdjacent]
  have hy : P (x, oy, oz) ↔ P (x, y, oz) := by
    apply line_connected (Q := fun i => P (x, i, oz)) _ hc.2.1.1 hc.2.1.2
    intro i hi hi'
    apply h _ _ (by dsimp only; omega) (by dsimp only; omega)
    simp [FaceAdjacent]
  have hz : P (x, y, oz) ↔ P (x, y, z) := by
    apply line_connected (Q := fun i => P (x, y, i)) _ hc.2.2.1 hc.2.2.2
    intro i hi hi'
    apply h _ _ (by dsimp only; omega) (by dsimp only; omega)
    simp [FaceAdjacent]
  exact (hx.trans hy).trans hz

theorem BoundaryLabeled.child {flags : NodeFlags} {faces : BitVec 8} {children : Fin 8 → GrGeomOctree}
    (h : BoundaryLabeled (n + 1) (branch flags faces children) o) (m : Fin 8) :
    BoundaryLabeled n (children m) (octantCorner n o m) :=
  fun c d f g hadj hc hd => h c d f g hadj (leafAt_branch.mpr ⟨m, hc⟩) (leafAt_branch.mpr ⟨m, hd⟩)

/-- Somewhere on the way from an interior to an exterior cell the boundary is crossed. -/
theorem exists_boundary (hfits : Fits n t) (hlabel : AllLeaves NodeFlags.OneLabel t) (hbound : BoundaryLabeled n t o)
    (hin : HasLeaf NodeFlags.Interior t) (hout : HasLeaf NodeFlags.Exterior t) :
    HasLeaf (fun f => f.inside) t ∧ HasLeaf (fun f => f.outside) t := by
  obtain ⟨c, f, hc, hf⟩ := hin.exists_cell hfits o
  obtain ⟨d, g, hd, hg⟩ := hout.exists_cell hfits o
  by_contra hno
  -- then the cells on both sides of a crossing are never labeled so, and there is none
  have hsame : ∀ c d, InCube o (2 ^ n) c → InCube o (2 ^ n) d → FaceAdjacent c d →
      (∃ f, LeafAt n t o c f ∧ f.Interior) → ∃ g, LeafAt n t o d g ∧ g.Interior := by
    intro c d _ hd hadj hcf
    obtain ⟨f, hf, hi⟩ := hcf
    obtain ⟨g, hg⟩ := exists_leafAt hfits hd
    refine ⟨g, hg, ?_⟩
    by_contra hgi
    have hb := hbound c d f g hadj hf hg hi ((hg.of_allLeaves hfits hlabel).exterior_iff.mpr hgi)
    exact hno ⟨hf.hasLeaf hfits hb.1, hg.hasLeaf hfits hb.2⟩
  have hconn : ∀ {e}, InCube o (2 ^ n) e →
      ((∃ f, LeafAt n t o o f ∧ f.Interior) ↔ ∃ f, LeafAt n t o e f ∧ f.Interior) := fun he =>
    cube_connected (fun c d hc hd hadj => ⟨hsame c d hc hd hadj, hsame d c hd hc hadj.symm⟩) he
  obtain ⟨g', hg', hi⟩ := (hconn hd.inCube).mp ((hconn hc.inCube).mpr ⟨f, hc, hf⟩)
  obtain rfl := hd.unique hfits hg'
  exact (hd.of_allLeaves hfits hlabel).exterior_iff.mp hg hi

theorem properlyLabeled_of_boundary (hfits : Fits n t) (hlabel : AllLeaves NodeFlags.OneLabel t)
    (hbound : BoundaryLabeled n t o) : ProperlyLabeled t := by
  refine ⟨hlabel, ?_⟩
  induction n generalizing t o with
  | zero =>
    cases t with
    | leaf flags faces => exact trivial
    | branch flags faces children => exact absurd hfits id
  | succ n ih =>
    cases t with
    | leaf flags faces => exact trivial
    | branch flags faces children =>
      exact ⟨exists_boundary hfits hlabel hbound, fun m => ih (hfits m) (hlabel m) (hbound.child m)⟩

/-! ## The loops after the flags are set -/

theorem SameLeaves.fits (h : SameLeaves t t') (hfits : Fits n t) : Fits n t' := by
  induction n generalizing t t' with
  | zero =>
    cases t with
    | leaf flags faces =>
      cases t' with
      | leaf flags' faces' => exact trivial
      | branch flags' faces' children' => exact absurd h id
    | branch flags faces children => exact absurd hfits id
  | succ n ih =>
    cases t' with
    | leaf flags' faces' => exact trivial
    | branch flags' faces' children' =>
      cases t with
      | leaf flags faces => exact absurd h id
      | branch flags faces children => exact fun m => ih (h.2 m) (hfits m)

theorem SameLeaves.leafAt (h : SameLeaves t t') (hfits : Fits n t) : LeafAt n t' o c f ↔ LeafAt n t o c f := by
  induction n generalizing t t' o with
  | zero =>
    cases t with
    | leaf flags faces =>
      cases t' with
      | leaf flags' faces' => rw [leafAt_leaf, leafAt_leaf, h.1]
      | branch flags' faces' children' => exact absurd h id
    | branch flags faces children => exact absurd hfits id
  | succ n ih =>
    cases t with
    | leaf flags faces =>
      cases t' with
      | leaf flags' faces' => rw [leafAt_leaf, leafAt_leaf, h.1]
      | branch flags' faces' children' => exact absurd h id
    | branch flags faces children =>
      cases t' with
      | leaf flags' faces' => exact absurd h id
      | branch flags' faces' children' =>
        rw [leafAt_branch, leafAt_branch]
        exact exists_congr fun m => ih (h.2 m) (hfits m)

/-- A loop that stops early at branches whose leaves are all to be visited visits the cells of the
leaves that are to be visited. -/
theorem occurs_iff_leafAt (stop emit : NodeFlags → Bool) (hemit : ∀ f, stop f → emit f) (hfits : Fits n t)
    (hstop : ForBranches (fun flags children => stop flags → ∀ m, AllLeaves (fun f => emit f) (children m)) t) :
    Occurs (fun node => stop node.flags) (fun node => emit node.flags) (fun _ c => [c]) n t o c ↔
      ∃ f, LeafAt n t o c f ∧ emit f := by
  induction n generalizing t o with
  | zero =>
    cases t with
    | branch flags faces children => exact absurd hfits id
    | leaf flags faces =>
      simp only [leafAt_leaf, pow_zero, inCube_one, Occurs, GrGeomOctree.flags, List.mem_singleton]
      grind
  | succ n ih =>
    cases t with
    | leaf flags faces =>
      simp only [leafAt_leaf, Occurs, nodeIsLeaf, Bool.true_or, if_true, GrGeomOctree.flags, List.mem_singleton]
      grind
    | branch flags faces children =>
      rw [Occurs]
      by_cases hs : stop flags
      · rw [if_pos (by simp [GrGeomOctree.flags, hs])]
        constructor
        · rintro ⟨-, d, hd, hc⟩
          obtain rfl := List.mem_singleton.mp hc
          obtain ⟨f, hf⟩ := exists_leafAt hfits hd
          exact ⟨f, hf, hf.of_allLeaves hfits (hstop.1 hs)⟩
        · rintro ⟨f, hf, -⟩
          exact ⟨hemit flags hs, c, hf.inCube, List.mem_singleton_self c⟩
      · rw [if_neg (by simp [GrGeomOctree.flags, nodeIsLeaf, hs])]
        simp only [leafAt_branch]
        constructor
        · rintro ⟨m, hm, h⟩
          rw [child, dif_pos (show m < numChildren from hm)] at h
          obtain ⟨f, hf, he⟩ := (ih (hfits ⟨m, hm⟩) (hstop.2 ⟨m, hm⟩)).mp h
          exact ⟨f, ⟨⟨m, hm⟩, hf⟩, he⟩
        · rintro ⟨f, ⟨m, hf⟩, he⟩
          refine ⟨m, m.isLt, ?_⟩
          rw [child, dif_pos (show m.val < numChildren from m.isLt)]
          exact (ih (hfits m) (hstop.2 m)).mpr ⟨f, hf, he⟩

theorem ForBranches.mono {P Q : NodeFlags → (Fin 8 → GrGeomOctree) → Prop} (h : ForBranches P t)
    (hPQ : ∀ flags children, P flags children → Q flags children) : ForBranches Q t := by
  induction t with
  | leaf flags faces => exact trivial
  | branch flags faces children ih => exact ⟨hPQ flags children h.1, fun m => ih m (h.2 m)⟩

section Flagged

variable {level : ℕ} {start : Cell} (hfits : Fits level t) (hproper : ProperlyLabeled t) (hflagged : Flagged t t')

include hfits hproper hflagged

theorem interiorCell_iff : InteriorCell t' level start c ↔ ∃ f, LeafAt level t start c f ∧ f.Interior := by
  have h : InteriorCell t' level start c ↔ ∃ f, LeafAt level t' start c f ∧ (f.inside || f.full) := by
    refine occurs_iff_leafAt NodeFlags.full (fun f => f.inside || f.full) (fun f hf => by simp [hf]) (hflagged.same.fits hfits) ?_
    refine (hflagged.side hproper).mono fun flags children h hf m => ?_
    exact (h.1 hf m).mono fun f hf => by simpa [NodeFlags.Interior, or_comm] using hf
  rw [h]
  apply exists_congr
  intro f
  rw [hflagged.same.leafAt hfits, NodeFlags.Interior, Bool.or_eq_true, or_comm]

theorem exteriorCell_iff : ExteriorCell t' level start c ↔ ∃ f, LeafAt level t start c f ∧ f.Exterior := by
  have h : ExteriorCell t' level start c ↔ ∃ f, LeafAt level t' start c f ∧ (f.outside || f.empty) := by
    refine occurs_iff_leafAt NodeFlags.empty (fun f => f.outside || f.empty) (fun f hf => by simp [hf]) (hflagged.same.fits hfits) ?_
    refine (hflagged.side hproper).mono fun flags children h hf m => ?_
    exact (h.2 hf m).mono fun f hf => by simpa [NodeFlags.Exterior, or_comm] using hf
  rw [h]
  apply exists_congr
  intro f
  rw [hflagged.same.leafAt hfits, NodeFlags.Exterior, Bool.or_eq_true, or_comm]

end Flagged

/-- After the flags of the branch nodes are set, the loops over the interior and the exterior visit
each cell of the region in the octree once, in the loop that its leaf belongs to. -/
theorem interior_exterior_split (octree : GrGeomOctree) (level maxLevel : ℕ) (start : Cell) (region : Subgrid)
    (hfits : Fits level octree) (hlabel : AllLeaves NodeFlags.OneLabel octree)
    (hbound : BoundaryLabeled level octree start) :
    ∃ octree' ins outs, Returns (fun fuel => octreeSetBranchNodeFlags fuel octree maxLevel) octree' ∧
      Returns (fun fuel => octreeInteriorNodeLoop fuel start octree' level region fun _ c => [c]) ins ∧
      Returns (fun fuel => octreeExteriorNodeLoop fuel start octree' level region fun _ c => [c]) outs ∧
      (ins ++ outs).Nodup ∧
      (∀ c, c ∈ ins ++ outs ↔ c ∈ region.cells ∧ InCube start (2 ^ level) c) ∧
      ∀ c, c ∈ ins ↔ c ∈ region.cells ∧ ∃ f, LeafAt level octree start c f ∧ (f.full ∨ f.inside) := by
  have hproper := properlyLabeled_of_boundary hfits hlabel hbound
  obtain ⟨octree', hret, hflagged⟩ := setBranchNodeFlags_flagged octree maxLevel
  obtain ⟨ins, hins, hnd, hmem⟩ := octreeInteriorNodeLoop_selects start octree' level region
  obtain ⟨outs, houts, hnd', hmem'⟩ := octreeExteriorNodeLoop_selects start octree' level region
  have hin : ∀ c, c ∈ ins ↔ c ∈ region.cells ∧ ∃ f, LeafAt level octree start c f ∧ f.Interior := by
    intro c
    rw [hmem, interiorCell_iff hfits hproper hflagged, id_eq]
  have hout : ∀ c, c ∈ outs ↔ c ∈ region.cells ∧ ∃ f, LeafAt level octree start c f ∧ f.Exterior := by
    intro c
    rw [hmem', exteriorCell_iff hfits hproper hflagged, id_eq]
  refine ⟨octree', ins, outs, hret, hins, houts, List.nodup_append.mpr ⟨hnd, hnd', ?_⟩, ?_, hin⟩
  · intro c hc d hd hcd
    subst hcd
    obtain ⟨-, f, hf, hfi⟩ := (hin c).mp hc
    obtain ⟨-, g, hg, hge⟩ := (hout c).mp hd
    obtain rfl := hf.unique hfits hg
    exact (hf.of_allLeaves hfits hlabel).exterior_iff.mp hge hfi
  · intro c
    rw [List.mem_append, hin, hout, ← and_or_left]
    apply and_congr_right
    intro _
    constructor
    · rintro (⟨f, hf, -⟩ | ⟨f, hf, -⟩)
      · exact hf.inCube
      · exact hf.inCube
    · intro hc
      obtain ⟨f, hf⟩ := exists_leafAt hfits hc
      by_cases hi : f.Interior
      · exact Or.inl ⟨f, hf, hi⟩
      · exact Or.inr ⟨f, hf, (hf.of_allLeaves hfits hlabel).exterior_iff.mpr hi⟩

/-- A solid in the left half of a cube with side two. -/
def leftHalf : GrGeomOctree :=
  branch ⟨false, false, false, false⟩ 0 fun m =>
    if m.val % 2 = 0 then leaf ⟨false, false, true, false⟩ 1 else leaf ⟨false, true, false, false⟩ 0

theorem leftHalf_split :
    ∃ octree' ins outs, Returns (fun fuel => octreeSetBranchNodeFlags fuel leftHalf 1) octree' ∧
      Returns (fun fuel => octreeInteriorNodeLoop fuel (0, 0, 0) octree' 1 (newSubgrid 0 0 0 2 2 2 0 0 0 0)
        fun _ c => [c]) ins ∧
      Returns (fun fuel => octreeExteriorNodeLoop fuel (0, 0, 0) octree' 1 (newSubgrid 0 0 0 2 2 2 0 0 0 0)
        fun _ c => [c]) outs ∧ (ins ++ outs).Nodup := by
  have hfits : Fits 1 leftHalf := by
    intro m
    dsimp only
    split_ifs <;> exact trivial
  have hside : AllLeaves (fun f => f = ⟨false, false, true, false⟩ ∨ f = ⟨false, true, false, false⟩) leftHalf := by
    intro m
    dsimp only
    split_ifs
    · exact Or.inl rfl
    · exact Or.inr rfl
  have hlabel : AllLeaves NodeFlags.OneLabel leftHalf := hside.mono fun f hf => by
    rcases hf with rfl | rfl
    · exact Or.inr (Or.inr (Or.inl rfl))
    · exact Or.inr (Or.inl rfl)
  have hbound : BoundaryLabeled 1 leftHalf (0, 0, 0) := by
    intro c d f g _ hf hg hi he
    have hf' := hf.of_allLeaves hfits hside
    have hg' := hg.of_allLeaves hfits hside
    rcases hf' with rfl | rfl <;> rcases hg' with rfl | rfl <;> simp_all [NodeFlags.Interior, NodeFlags.Exterior]
  obtain ⟨octree', ins, outs, h₁, h₂, h₃, h₄, -⟩ :=
    interior_exterior_split leftHalf 1 1 (0, 0, 0) (newSubgrid 0 0 0 2 2 2 0 0 0 0) hfits hlabel hbound
  exact ⟨octree', ins, outs, h₁, h₂, h₃, h₄⟩

end ParFlow.Geom
