import ParFlow.Geom.CellDefs

/-! What the flags of branch nodes say. The walk computes what a recursion over the octree
computes. Under a branch the flags `Inside` and `Outside` tell exactly whether there is such
a leaf. The flags `Full` and `Empty` are right when interior and exterior leaves do not meet
without a boundary between them. -/

namespace ParFlow.Geom

open FuelRun GrGeomOctree

/-! ## The walk as a recursion -/

/-- The children `ms`, one after the other. -/
def flagChildren (visit : Fin 8 → LevelSums → GrGeomOctree × LevelSums) (ms : List (Fin 8))
    (st : (Fin 8 → GrGeomOctree) × LevelSums) : (Fin 8 → GrGeomOctree) × LevelSums :=
  ms.foldl (fun st (m : Fin 8) => (setChild st.1 m (visit m st.2).1, (visit m st.2).2)) st

def flagTree : GrGeomOctree → ℕ → LevelSums → GrGeomOctree × LevelSums
  | leaf flags faces, l, sums => (leaf flags faces, Function.update sums l (sumLeaf (sums l) flags))
  | branch flags faces children, l, sums =>
    let below := flagChildren (fun m sums => flagTree (children m) (l + 1) sums) (List.finRange 8) (children, sums)
    let child := below.2 (l + 1)
    (branch (branchFlags child flags) faces below.1,
      Function.update (Function.update below.2 l (sumBranch (below.2 l) child)) (l + 1) ⟨true, false, false, true⟩)

/-- After some steps the walk goes on at `c'`. -/
def FlagReaches (c c' : FlagCursor ⊕ GrGeomOctree) : Prop := ∃ k, ∀ fuel, flagRun (fuel + k) c = flagRun fuel c'

theorem FlagReaches.trans {c₁ c₂ c₃ : FlagCursor ⊕ GrGeomOctree} (h₁ : FlagReaches c₁ c₂) (h₂ : FlagReaches c₂ c₃) :
    FlagReaches c₁ c₃ := by
  obtain ⟨k₁, h₁⟩ := h₁
  obtain ⟨k₂, h₂⟩ := h₂
  use k₂ + k₁
  intro fuel
  rw [← add_assoc, h₁, h₂]

theorem flagReaches_step (c : FlagCursor) : FlagReaches (.inl c) (flagStep c) := ⟨1, fun _ => rfl⟩

theorem setChild_of_ne {children : Fin 8 → GrGeomOctree} {m : ℕ} {node : GrGeomOctree} {i : Fin 8} (h : i.val ≠ m) :
    setChild children m node i = children i := if_neg h

theorem setChild_self {children : Fin 8 → GrGeomOctree} {m : Fin 8} {node : GrGeomOctree} :
    setChild children m node m = node := if_pos rfl

theorem flagReaches_flagTree (t : GrGeomOctree) (path : List BranchFrame) (sums : LevelSums) :
    FlagReaches (.inl ⟨t, 0, path, sums⟩)
      (goToParent (flagTree t path.length sums).1 path (flagTree t path.length sums).2) := by
  induction t generalizing path sums with
  | leaf flags faces => exact flagReaches_step _
  | branch flags faces children ih =>
    -- the children from `m` on, when those before are done
    have hchildren : ∀ k m, m + k = 8 → ∀ cs sums, (∀ i : Fin 8, m ≤ i.val → cs i = children i) →
        FlagReaches (.inl ⟨branch flags faces cs, m, path, sums⟩)
          (let below := flagChildren (fun m sums => flagTree (children m) (path.length + 1) sums)
            ((List.finRange 8).drop m) (cs, sums)
          flagStep ⟨branch flags faces below.1, 8, path, below.2⟩) := by
      intro k
      induction k with
      | zero =>
        intro m hm cs sums _
        obtain rfl : m = 8 := by omega
        exact flagReaches_step _
      | succ k ihk =>
        intro m hm cs sums hcs
        have hm8 : m < 8 := by omega
        have hdrop : (List.finRange 8).drop m = ⟨m, hm8⟩ :: (List.finRange 8).drop (m + 1) := by
          rw [List.drop_eq_getElem_cons (by simpa using hm8)]
          simp
        have hdown := flagReaches_step ⟨branch flags faces cs, m, path, sums⟩
        have hstep : flagStep ⟨branch flags faces cs, m, path, sums⟩ =
            .inl ⟨children ⟨m, hm8⟩, 0, ⟨flags, faces, cs, m⟩ :: path, sums⟩ := by
          simp only [flagStep, numChildren, child, dif_pos hm8, if_pos hm8, hcs ⟨m, hm8⟩ le_rfl]
        rw [hstep] at hdown
        have hchild := ih ⟨m, hm8⟩ (⟨flags, faces, cs, m⟩ :: path) sums
        have hrest := ihk (m + 1) (by omega) (setChild cs m (flagTree (children ⟨m, hm8⟩) (path.length + 1) sums).1)
          (flagTree (children ⟨m, hm8⟩) (path.length + 1) sums).2 fun i hi => by
            rw [setChild_of_ne (by omega), hcs i (by omega)]
        rw [hdrop]
        exact (hdown.trans hchild).trans hrest
    have h := hchildren 8 0 rfl children sums fun i _ => rfl
    rw [List.drop_zero] at h
    exact h

theorem octreeSetBranchNodeFlags_returns (octree : GrGeomOctree) (level : ℕ) :
    Returns (fun fuel => octreeSetBranchNodeFlags fuel octree level) (flagTree octree 0 (initialSums level)).1 := by
  obtain ⟨k, hk⟩ := flagReaches_flagTree octree [] (initialSums level)
  apply returns_of_add k
  intro fuel
  rw [octreeSetBranchNodeFlags, hk]
  cases fuel <;> rfl

/-! ## Leaves -/

def HasLeaf (p : NodeFlags → Prop) : GrGeomOctree → Prop
  | leaf flags _ => p flags
  | branch _ _ children => ∃ m, HasLeaf p (children m)

def AllLeaves (p : NodeFlags → Prop) : GrGeomOctree → Prop
  | leaf flags _ => p flags
  | branch _ _ children => ∀ m, AllLeaves p (children m)

/-- `P` holds of the flags and the children of every branch node. -/
def ForBranches (P : NodeFlags → (Fin 8 → GrGeomOctree) → Prop) : GrGeomOctree → Prop
  | leaf _ _ => True
  | branch flags _ children => P flags children ∧ ∀ m, ForBranches P (children m)

/-- The octrees differ in the flags of branch nodes only. -/
def SameLeaves : GrGeomOctree → GrGeomOctree → Prop
  | leaf flags faces, leaf flags' faces' => flags = flags' ∧ faces = faces'
  | branch _ faces children, branch _ faces' children' => faces = faces' ∧ ∀ m, SameLeaves (children m) (children' m)
  | _, _ => False

namespace NodeFlags

/-- Exactly one of the four labels. -/
def OneLabel (f : NodeFlags) : Prop :=
  f = ⟨true, false, false, false⟩ ∨ f = ⟨false, true, false, false⟩ ∨ f = ⟨false, false, true, false⟩ ∨
    f = ⟨false, false, false, true⟩

def Interior (f : NodeFlags) : Prop := f.full ∨ f.inside

def Exterior (f : NodeFlags) : Prop := f.empty ∨ f.outside

theorem OneLabel.exterior_iff {f : NodeFlags} (h : f.OneLabel) : f.Exterior ↔ ¬ f.Interior := by
  rcases h with rfl | rfl | rfl | rfl <;> simp [Exterior, Interior]

end NodeFlags

theorem allLeaves_iff {p : NodeFlags → Prop} {t : GrGeomOctree} : AllLeaves p t ↔ ¬ HasLeaf (fun f => ¬ p f) t := by
  induction t with
  | leaf flags faces => exact not_not.symm
  | branch flags faces children ih => simp only [AllLeaves, HasLeaf, ih, not_exists]

theorem HasLeaf.mono {p q : NodeFlags → Prop} {t : GrGeomOctree} (h : HasLeaf p t) (hpq : ∀ f, p f → q f) :
    HasLeaf q t := by
  induction t with
  | leaf flags faces => exact hpq flags h
  | branch flags faces children ih =>
    obtain ⟨m, hm⟩ := h
    exact ⟨m, ih m hm⟩

theorem AllLeaves.mono {p q : NodeFlags → Prop} {t : GrGeomOctree} (h : AllLeaves p t) (hpq : ∀ f, p f → q f) :
    AllLeaves q t := by
  induction t with
  | leaf flags faces => exact hpq flags h
  | branch flags faces children ih => exact fun m => ih m (h m)

/-- A leaf with `p` has what all leaves have. -/
theorem HasLeaf.and {p q : NodeFlags → Prop} {t : GrGeomOctree} (h : HasLeaf p t) (hq : AllLeaves q t) :
    HasLeaf (fun f => p f ∧ q f) t := by
  induction t with
  | leaf flags faces => exact ⟨h, hq⟩
  | branch flags faces children ih =>
    obtain ⟨m, hm⟩ := h
    exact ⟨m, ih m hm (hq m)⟩

theorem SameLeaves.hasLeaf {p : NodeFlags → Prop} {t t' : GrGeomOctree} (h : SameLeaves t t') :
    HasLeaf p t' ↔ HasLeaf p t := by
  induction t generalizing t' with
  | leaf flags faces =>
    cases t' with
    | leaf flags' faces' => rw [HasLeaf, HasLeaf, h.1]
    | branch flags' faces' children' => exact absurd h id
  | branch flags faces children ih =>
    cases t' with
    | leaf flags' faces' => exact absurd h id
    | branch flags' faces' children' => exact exists_congr fun m => ih m (h.2 m)

theorem SameLeaves.allLeaves {p : NodeFlags → Prop} {t t' : GrGeomOctree} (h : SameLeaves t t') :
    AllLeaves p t' ↔ AllLeaves p t := by
  rw [allLeaves_iff, allLeaves_iff, h.hasLeaf]

/-! ## What the flags say -/

/-- `Inside` and `Outside` tell of the leaves below. -/
def TellsBoundary (flags : NodeFlags) (children : Fin 8 → GrGeomOctree) : Prop :=
  (flags.inside ↔ ∃ m, HasLeaf (fun f => f.inside) (children m)) ∧
    (flags.outside ↔ ∃ m, HasLeaf (fun f => f.outside) (children m))

/-- `Full` and `Empty` tell of the leaves below. -/
def TellsSide (flags : NodeFlags) (children : Fin 8 → GrGeomOctree) : Prop :=
  (flags.full → ∀ m, AllLeaves NodeFlags.Interior (children m)) ∧
    (flags.empty → ∀ m, AllLeaves NodeFlags.Exterior (children m))

/-- Under a branch with interior and exterior leaves the boundary has leaves on both sides. -/
def HasBoundary (_ : NodeFlags) (children : Fin 8 → GrGeomOctree) : Prop :=
  (∃ m, HasLeaf NodeFlags.Interior (children m)) → (∃ m, HasLeaf NodeFlags.Exterior (children m)) →
    (∃ m, HasLeaf (fun f => f.inside) (children m)) ∧ ∃ m, HasLeaf (fun f => f.outside) (children m)

/-- The labels are those of a solid: each leaf has one, and no interior leaf meets an exterior one
without a boundary. -/
def ProperlyLabeled (t : GrGeomOctree) : Prop := AllLeaves NodeFlags.OneLabel t ∧ ForBranches HasBoundary t

/-- No boundary was seen at the levels below `l`. -/
def ClearBelow (l : ℕ) (sums : LevelSums) : Prop := ∀ j > l, (sums j).inside = false ∧ (sums j).outside = false

/-- How a sum changes over some leaves. `Full` and `Empty` are told only of properly labeled ones. -/
structure SumsUp (sum sum' : NodeFlags) (proper inside outside interior exterior : Prop) : Prop where
  inside : sum'.inside ↔ sum.inside ∨ inside
  outside : sum'.outside ↔ sum.outside ∨ outside
  full : proper → sum'.full → sum.full ∧ interior
  empty : proper → sum'.empty → sum.empty ∧ exterior

theorem SumsUp.trans {a b c : NodeFlags} {P I O F E P' I' O' F' E' : Prop} (h : SumsUp a b P I O F E)
    (h' : SumsUp b c P' I' O' F' E') : SumsUp a c (P ∧ P') (I ∨ I') (O ∨ O') (F ∧ F') (E ∧ E') where
  inside := by rw [h'.inside, h.inside, or_assoc]
  outside := by rw [h'.outside, h.outside, or_assoc]
  full := by
    intro hP hc
    obtain ⟨hb, hF'⟩ := h'.full hP.2 hc
    obtain ⟨ha, hF⟩ := h.full hP.1 hb
    exact ⟨ha, hF, hF'⟩
  empty := by
    intro hP hc
    obtain ⟨hb, hE'⟩ := h'.empty hP.2 hc
    obtain ⟨ha, hE⟩ := h.empty hP.1 hb
    exact ⟨ha, hE, hE'⟩

/-- What is done to one octree of the walk, without its sums. -/
structure Flagged (t t' : GrGeomOctree) : Prop where
  same : SameLeaves t t'
  boundary : ForBranches TellsBoundary t'
  side : ProperlyLabeled t → ForBranches TellsSide t'

/-- What is done to an octree at level `l` and to the sums. -/
structure FlagsRight (t t' : GrGeomOctree) (l : ℕ) (sums sums' : LevelSums) : Prop where
  flagged : Flagged t t'
  above : ∀ j < l, sums' j = sums j
  clear : ClearBelow l sums'
  sumsUp : SumsUp (sums l) (sums' l) (ProperlyLabeled t) (HasLeaf (fun f => f.inside) t) (HasLeaf (fun f => f.outside) t)
    (AllLeaves NodeFlags.Interior t) (AllLeaves NodeFlags.Exterior t)

/-- The same for the children `ms`, whose sum is at level `l`. -/
structure ChildrenRight (children : Fin 8 → GrGeomOctree) (ms : List (Fin 8)) (l : ℕ)
    (st st' : (Fin 8 → GrGeomOctree) × LevelSums) : Prop where
  rest : ∀ m ∉ ms, st'.1 m = st.1 m
  flagged : ∀ m ∈ ms, Flagged (children m) (st'.1 m)
  above : ∀ j < l, st'.2 j = st.2 j
  clear : ClearBelow l st'.2
  sumsUp : SumsUp (st.2 l) (st'.2 l) (∀ m ∈ ms, ProperlyLabeled (children m))
    (∃ m ∈ ms, HasLeaf (fun f => f.inside) (children m)) (∃ m ∈ ms, HasLeaf (fun f => f.outside) (children m))
    (∀ m ∈ ms, AllLeaves NodeFlags.Interior (children m)) (∀ m ∈ ms, AllLeaves NodeFlags.Exterior (children m))

theorem flagChildren_right {children : Fin 8 → GrGeomOctree} {l : ℕ}
    {visit : Fin 8 → LevelSums → GrGeomOctree × LevelSums}
    (hvisit : ∀ m sums, ClearBelow l sums → FlagsRight (children m) (visit m sums).1 l sums (visit m sums).2)
    (ms : List (Fin 8)) (hms : ms.Nodup) (cs : Fin 8 → GrGeomOctree) (sums : LevelSums) (hclear : ClearBelow l sums) :
    ChildrenRight children ms l (cs, sums) (flagChildren visit ms (cs, sums)) := by
  induction ms generalizing cs sums with
  | nil =>
    refine ⟨fun m _ => rfl, fun m hm => absurd hm List.not_mem_nil, fun j _ => rfl, hclear, ?_⟩
    exact ⟨by simp [flagChildren], by simp [flagChildren], fun _ h => ⟨h, by simp⟩, fun _ h => ⟨h, by simp⟩⟩
  | cons m ms ih =>
    rw [List.nodup_cons] at hms
    have hm := hvisit m sums hclear
    have h := ih hms.2 (setChild cs m (visit m sums).1) (visit m sums).2 hm.clear
    have hself : (flagChildren visit ms (setChild cs m (visit m sums).1, (visit m sums).2)).1 m = (visit m sums).1 := by
      rw [h.rest m hms.1]
      exact setChild_self
    have hsum := hm.sumsUp.trans h.sumsUp
    constructor
    · intro i hi
      rw [List.mem_cons, not_or] at hi
      rw [flagChildren, List.foldl_cons]
      exact (h.rest i hi.2).trans (setChild_of_ne fun he => hi.1 (Fin.ext he))
    · intro i hi
      rcases List.mem_cons.mp hi with rfl | hi
      · exact hself ▸ hm.flagged
      · exact h.flagged i hi
    · intro j hj
      exact (h.above j hj).trans (hm.above j hj)
    · exact h.clear
    · simp only [List.forall_mem_cons, List.exists_mem_cons_iff]
      exact hsum

theorem branchFlags_eq (child flags : NodeFlags) :
    branchFlags child flags = ⟨child.empty, child.outside, child.inside, child.full && !child.empty⟩ := by
  cases child with
  | mk e o i f => cases e <;> cases o <;> cases i <;> cases f <;> rfl

theorem ProperlyLabeled.child {flags : NodeFlags} {faces : BitVec 8} {children : Fin 8 → GrGeomOctree}
    (h : ProperlyLabeled (branch flags faces children)) (m : Fin 8) : ProperlyLabeled (children m) :=
  ⟨h.1 m, h.2.2 m⟩

/-- Without a leaf on one side of the boundary the leaves are on the other side. -/
theorem ProperlyLabeled.interior {flags : NodeFlags} {faces : BitVec 8} {children : Fin 8 → GrGeomOctree}
    (h : ProperlyLabeled (branch flags faces children)) (hin : ∃ m, HasLeaf (fun f => f.inside) (children m))
    (hout : ¬ ∃ m, HasLeaf (fun f => f.outside) (children m)) (m : Fin 8) :
    AllLeaves NodeFlags.Interior (children m) := by
  rw [allLeaves_iff]
  intro hleaf
  obtain ⟨i, hi⟩ := hin
  have hexterior : HasLeaf NodeFlags.Exterior (children m) :=
    (hleaf.and (h.1 m)).mono fun f hf => hf.2.exterior_iff.mpr hf.1
  exact hout (h.2.1 ⟨i, hi.mono fun f hf => Or.inr hf⟩ ⟨m, hexterior⟩).2

theorem ProperlyLabeled.exterior {flags : NodeFlags} {faces : BitVec 8} {children : Fin 8 → GrGeomOctree}
    (h : ProperlyLabeled (branch flags faces children)) (hout : ∃ m, HasLeaf (fun f => f.outside) (children m))
    (hin : ¬ ∃ m, HasLeaf (fun f => f.inside) (children m)) (m : Fin 8) :
    AllLeaves NodeFlags.Exterior (children m) := by
  rw [allLeaves_iff]
  intro hleaf
  obtain ⟨i, hi⟩ := hout
  have hinterior : HasLeaf NodeFlags.Interior (children m) :=
    (hleaf.and (h.1 m)).mono fun f hf => not_not.mp (mt hf.2.exterior_iff.mpr hf.1)
  exact hin (h.2.1 ⟨m, hinterior⟩ ⟨i, hi.mono fun f hf => Or.inr hf⟩).1

theorem flagTree_right (t : GrGeomOctree) (l : ℕ) (sums : LevelSums) (hclear : ClearBelow l sums) :
    FlagsRight t (flagTree t l sums).1 l sums (flagTree t l sums).2 := by
  induction t generalizing l sums with
  | leaf flags faces =>
    simp only [flagTree]
    constructor
    · exact ⟨⟨rfl, rfl⟩, trivial, fun _ => trivial⟩
    · intro j hj
      exact Function.update_of_ne hj.ne _ _
    · intro j hj
      rw [Function.update_of_ne hj.ne']
      exact hclear j hj
    · rw [Function.update_self]
      constructor
      · simp [sumLeaf, HasLeaf]
      · simp [sumLeaf, HasLeaf]
      · simp +contextual [sumLeaf, AllLeaves, NodeFlags.Interior]
      · simp +contextual [sumLeaf, AllLeaves, NodeFlags.Exterior]
  | branch flags faces children ih =>
    have hbelow : ClearBelow (l + 1) sums := fun j hj => hclear j (by omega)
    have h := flagChildren_right (fun m sums hc => ih m (l + 1) sums hc) (List.finRange 8) (List.nodup_finRange 8)
      children sums hbelow
    simp only [flagTree]
    generalize flagChildren (fun m sums => flagTree (children m) (l + 1) sums) (List.finRange 8) (children, sums) = r at h ⊢
    have hflagged := fun m => h.flagged m (List.mem_finRange m)
    have hin : (r.2 (l + 1)).inside ↔ ∃ m, HasLeaf (fun f => f.inside) (children m) := by
      rw [h.sumsUp.inside]
      simp [(hclear (l + 1) (by omega)).1]
    have hout : (r.2 (l + 1)).outside ↔ ∃ m, HasLeaf (fun f => f.outside) (children m) := by
      rw [h.sumsUp.outside]
      simp [(hclear (l + 1) (by omega)).2]
    have hfull : ProperlyLabeled (branch flags faces children) → (r.2 (l + 1)).full →
        ∀ m, AllLeaves NodeFlags.Interior (children m) := fun hp hf m =>
      (h.sumsUp.full (fun m _ => hp.child m) hf).2 m (List.mem_finRange m)
    have hempty : ProperlyLabeled (branch flags faces children) → (r.2 (l + 1)).empty →
        ∀ m, AllLeaves NodeFlags.Exterior (children m) := fun hp he m =>
      (h.sumsUp.empty (fun m _ => hp.child m) he).2 m (List.mem_finRange m)
    constructor
    · constructor
      · exact ⟨rfl, fun m => (hflagged m).same⟩
      · refine ⟨?_, fun m => (hflagged m).boundary⟩
        rw [branchFlags_eq]
        constructor
        · rw [hin]
          exact exists_congr fun m => (hflagged m).same.hasLeaf.symm
        · rw [hout]
          exact exists_congr fun m => (hflagged m).same.hasLeaf.symm
      · intro hp
        refine ⟨?_, fun m => (hflagged m).side (hp.child m)⟩
        rw [branchFlags_eq]
        constructor
        · intro hf m
          rw [Bool.and_eq_true] at hf
          exact (hflagged m).same.allLeaves.mpr (hfull hp hf.1 m)
        · intro he m
          exact (hflagged m).same.allLeaves.mpr (hempty hp he m)
    · intro j hj
      rw [Function.update_of_ne (by omega), Function.update_of_ne hj.ne]
      exact h.above j (by omega)
    · intro j hj
      by_cases hj' : j = l + 1
      · subst hj'
        rw [Function.update_self]
        exact ⟨rfl, rfl⟩
      · rw [Function.update_of_ne hj', Function.update_of_ne hj.ne']
        exact h.clear j (by omega)
    · rw [Function.update_of_ne (by omega), Function.update_self, h.above l (by omega)]
      constructor
      · simp only [sumBranch, Bool.or_eq_true, hin, HasLeaf]
      · simp only [sumBranch, Bool.or_eq_true, hout, HasLeaf]
      · intro hp hf
        simp only [sumBranch, Bool.and_eq_true, Bool.or_eq_true, Bool.not_eq_true'] at hf
        obtain ⟨hl, hi | hc, ho⟩ := hf
        · exact ⟨hl, hp.interior (hin.mp hi) fun hex => by simp [hout.mpr hex] at ho⟩
        · exact ⟨hl, hfull hp hc⟩
      · intro hp he
        simp only [sumBranch, Bool.and_eq_true, Bool.or_eq_true, Bool.not_eq_true'] at he
        obtain ⟨hl, ho | hc, hi⟩ := he
        · exact ⟨hl, hp.exterior (hout.mp ho) fun hex => by simp [hin.mpr hex] at hi⟩
        · exact ⟨hl, hempty hp hc⟩

theorem initialSums_clear (level : ℕ) : ClearBelow 0 (initialSums level) := fun _ _ => ⟨rfl, rfl⟩

theorem setBranchNodeFlags_flagged (octree : GrGeomOctree) (level : ℕ) :
    ∃ octree', Returns (fun fuel => octreeSetBranchNodeFlags fuel octree level) octree' ∧ Flagged octree octree' :=
  ⟨_, octreeSetBranchNodeFlags_returns octree level,
    (flagTree_right octree 0 (initialSums level) (initialSums_clear level)).flagged⟩

/-- The walk ends, changes nothing but the flags of branch nodes, and sets them to tell of the leaves
below. -/
theorem branchFlags_tell_leaves (octree : GrGeomOctree) (level : ℕ) (hlabel : AllLeaves NodeFlags.OneLabel octree) :
    ∃ octree', Returns (fun fuel => octreeSetBranchNodeFlags fuel octree level) octree' ∧ SameLeaves octree octree' ∧
      ForBranches TellsBoundary octree' ∧ (ForBranches HasBoundary octree → ForBranches TellsSide octree') := by
  obtain ⟨octree', hret, hflagged⟩ := setBranchNodeFlags_flagged octree level
  exact ⟨octree', hret, hflagged.same, hflagged.boundary, fun h => hflagged.side ⟨hlabel, h⟩⟩

/-- Full leaves, and one octant with an inside leaf among empty ones. -/
def mixed : GrGeomOctree :=
  branch ⟨false, false, false, false⟩ 0 fun m =>
    if m = 0 then
      branch ⟨false, false, false, false⟩ 0 fun i =>
        if i = 0 then leaf ⟨false, false, true, false⟩ 0 else leaf ⟨true, false, false, false⟩ 0
    else leaf ⟨false, false, false, true⟩ 0

theorem mixed_oneLabel : AllLeaves NodeFlags.OneLabel mixed := by
  intro m
  dsimp only
  split_ifs
  · intro i
    dsimp only
    split_ifs
    · exact Or.inr (Or.inr (Or.inl rfl))
    · exact Or.inl rfl
  · exact Or.inr (Or.inr (Or.inr rfl))

/-- The root is flagged as full although there are empty leaves below. -/
theorem mixed_not_all_tell : ¬ ∀ (octree : GrGeomOctree) (level : ℕ), AllLeaves NodeFlags.OneLabel octree →
    ∀ octree', Returns (fun fuel => octreeSetBranchNodeFlags fuel octree level) octree' →
      ForBranches TellsSide octree' ∧ ForBranches TellsBoundary octree' := by
  intro h
  have hret := octreeSetBranchNodeFlags_returns mixed 2
  have hside := (h mixed 2 mixed_oneLabel _ hret).1
  have hsame := (flagTree_right mixed 0 (initialSums 2) (initialSums_clear 2)).flagged.same
  have hfull : (flagTree mixed 0 (initialSums 2)).1.flags.full := by decide
  have hempty := hsame.allLeaves.mp (show AllLeaves NodeFlags.Interior _ from hside.1.1 hfull) 0 1
  exact absurd hempty (by simp [AllLeaves, NodeFlags.Interior])

theorem full_tell_leaves : ∃ octree', Returns (fun fuel => octreeSetBranchNodeFlags fuel
      (branch ⟨false, false, false, false⟩ 0 fun _ => leaf ⟨false, false, false, true⟩ 0) 2) octree' ∧
    ForBranches TellsSide octree' := by
  have hlabel : AllLeaves NodeFlags.OneLabel
      (branch ⟨false, false, false, false⟩ 0 fun _ => leaf ⟨false, false, false, true⟩ 0) :=
    fun _ => Or.inr (Or.inr (Or.inr rfl))
  obtain ⟨octree', hret, -, -, hside⟩ := branchFlags_tell_leaves _ 2 hlabel
  refine ⟨octree', hret, hside ⟨fun _ hex => ?_, fun _ => trivial⟩⟩
  obtain ⟨m, hm⟩ := hex
  exact absurd hm (by simp [HasLeaf, NodeFlags.Exterior])

end ParFlow.Geom
