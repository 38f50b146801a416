import ParFlow.Comm.ComputeCells

/-! The points of a projected region. A projection by `ProjectSubgrid` rounds its bounds towards zero, so
that it is right for boxes from the index -1 on. -/

namespace ParFlow

open Cover Subregion

/-- The index region of stride two that holds the negative of `o`. -/
def InClass (o c : Cell) : Prop := (c.1 + o.1) % 2 = 0 ∧ (c.2.1 + o.2.1) % 2 = 0 ∧ (c.2.2 + o.2.2) % 2 = 0

instance (o c : Cell) : Decidable (InClass o c) := inferInstanceAs (Decidable (_ ∧ _))

def IsRed (c : Cell) : Prop := (c.1 + c.2.1 + c.2.2) % 2 = 1

instance (c : Cell) : Decidable (IsRed c) := inferInstanceAs (Decidable (_ = _))

/-- The lower corner lies where bounds are rounded up. -/
def Subregion.FromMinusOne (s : Subregion) : Prop := -1 ≤ s.ix ∧ -1 ≤ s.iy ∧ -1 ≤ s.iz

instance (s : Subregion) : Decidable s.FromMinusOne := inferInstanceAs (Decidable (_ ∧ _))

/-- Offsets of the tables for red and black points. -/
def IsOffset (o : Cell) : Prop := (o.1 = 0 ∨ o.1 = 1) ∧ (o.2.1 = 0 ∨ o.2.1 = 1) ∧ (o.2.2 = 0 ∨ o.2.2 = 1)

instance (o : Cell) : Decidable (IsOffset o) := inferInstanceAs (Decidable (_ ∧ _))

/-! ## One subregion -/

theorem projectAxis_spec {lo n i x : ℤ} (hlo : -1 ≤ lo) (hn : 0 ≤ n) (hi : i = 0 ∨ i = 1) :
    (∃ k, (0 ≤ k ∧ k < (projectAxis lo n 2 i).2) ∧ (projectAxis lo n 2 i).1 + k * 2 = x) ↔
      (lo ≤ x ∧ x < lo + n) ∧ (x + i) % 2 = 0 := by
  have hl : (lo + i + (2 - 1)).tdiv 2 = (lo + i + 1) / 2 := Int.tdiv_eq_ediv_of_nonneg (by omega)
  have hu : (lo + i + n + (2 - 1)).tdiv 2 = (lo + i + n + 1) / 2 := Int.tdiv_eq_ediv_of_nonneg (by omega)
  have hnum : ((lo + i + n + 1) / 2 * 2 - i - ((lo + i + 1) / 2 * 2 - i)).tdiv 2 = (lo + i + n + 1) / 2 - (lo + i + 1) / 2 := by
    rw [Int.tdiv_eq_ediv_of_nonneg (by omega)]
    omega
  simp only [projectAxis, hl, hu, hnum]
  constructor
  · rintro ⟨k, hk, rfl⟩
    omega
  · intro h
    exact ⟨(x + i) / 2 - (lo + i + 1) / 2, by omega, by omega⟩

theorem projectAxis_nonpos {lo n i : ℤ} (hn : n ≤ 0) : (projectAxis lo n 2 i).2 ≤ 0 := by
  have hle : (lo + i + n + (2 - 1)).tdiv 2 ≤ (lo + i + (2 - 1)).tdiv 2 := Int.tdiv_le_tdiv two_pos (by omega)
  have hdiff : (lo + i + n + (2 - 1)).tdiv 2 * 2 - i - ((lo + i + (2 - 1)).tdiv 2 * 2 - i) ≤ 0 := by omega
  have hdiv := Int.tdiv_le_tdiv two_pos hdiff
  rwa [Int.zero_tdiv] at hdiv

/-- `ProjectSubgrid` on a copy, where an empty projection is dropped. -/
def projectPart (o : Cell) (s : Subgrid) : Option Subregion :=
  let p := projectSubgrid s 2 2 2 o.1 o.2.1 o.2.2
  if p.2 then some p.1 else none

section Part

variable {s : Subgrid} {u : Subregion} {o c : Cell}

/-- The box of a projection, before it is checked for points. -/
def projectBox (o : Cell) (s : Subgrid) : Subregion :=
  let px := projectAxis s.ix s.nx 2 o.1
  let py := projectAxis s.iy s.ny 2 o.2.1
  let pz := projectAxis s.iz s.nz 2 o.2.2
  { s with sx := 2, sy := 2, sz := 2, ix := px.1, iy := py.1, iz := pz.1, nx := px.2, ny := py.2, nz := pz.2 }

theorem projectSubgrid_eq (o : Cell) (s : Subgrid) : projectSubgrid s 2 2 2 o.1 o.2.1 o.2.2 =
    if (projectBox o s).NonEmpty then (projectBox o s, true) else ({ projectBox o s with nx := 0, ny := 0, nz := 0 }, false) :=
  rfl

theorem projectPart_eq (o : Cell) (s : Subgrid) :
    projectPart o s = if (projectBox o s).NonEmpty then some (projectBox o s) else none := by
  unfold projectPart
  rw [projectSubgrid_eq]
  by_cases h : (projectBox o s).NonEmpty
  · simp [h]
  · simp [h]

theorem projectPart_eq_some (h : projectPart o s = some u) : u.NonEmpty ∧ u = projectBox o s := by
  rw [projectPart_eq] at h
  split_ifs at h with hpos
  rw [← Option.some.inj h]
  exact ⟨hpos, rfl⟩

theorem projectBox_strided (o : Cell) (s : Subgrid) : (projectBox o s).Strided := ⟨two_pos, two_pos, two_pos⟩

theorem projectPart_setProcess (o : Cell) (s : Subgrid) (p : ℤ) :
    projectPart o (s.setProcess p) = (projectPart o s).map fun u => u.setProcess p := by
  have hbox : projectBox o (s.setProcess p) = (projectBox o s).setProcess p := rfl
  have hiff : ((projectBox o s).setProcess p).NonEmpty ↔ (projectBox o s).NonEmpty := Iff.rfl
  rw [projectPart_eq, projectPart_eq, hbox]
  by_cases h : (projectBox o s).NonEmpty
  · rw [if_pos (hiff.mpr h), if_pos h, Option.map_some]
  · rw [if_neg (mt hiff.mp h), if_neg h, Option.map_none]

theorem mem_projectBox (hs : s.NonEmpty) (hlo : s.FromMinusOne) (ho : IsOffset o) :
    c ∈ (projectBox o s).points ↔ c ∈ s.cells ∧ InClass o c := by
  have hax := projectAxis_spec hlo.1 hs.1.le ho.1 (x := c.1)
  have hay := projectAxis_spec hlo.2.1 hs.2.1.le ho.2.1 (x := c.2.1)
  have haz := projectAxis_spec hlo.2.2 hs.2.2.le ho.2.2 (x := c.2.2)
  have hmem : c ∈ (projectBox o s).points ↔ _ := mem_points
  dsimp only [projectBox] at hmem
  rw [hax, hay, haz] at hmem
  refine Iff.trans hmem ?_
  rw [mem_cells_iff]
  constructor
  · rintro ⟨⟨hx, hox⟩, ⟨hy, hoy⟩, hz, hoz⟩
    exact ⟨⟨hx, hy, hz⟩, hox, hoy, hoz⟩
  · rintro ⟨⟨hx, hy, hz⟩, hox, hoy, hoz⟩
    exact ⟨⟨hx, hox⟩, ⟨hy, hoy⟩, hz, hoz⟩

theorem projectBox_empty (hs : ¬ s.NonEmpty) (o : Cell) : ¬ (projectBox o s).NonEmpty := by
  rintro ⟨hx, hy, hz⟩
  apply hs
  refine ⟨?_, ?_, ?_⟩
  · exact not_le.mp fun hn => absurd hx (not_lt.mpr (projectAxis_nonpos hn))
  · exact not_le.mp fun hn => absurd hy (not_lt.mpr (projectAxis_nonpos hn))
  · exact not_le.mp fun hn => absurd hz (not_lt.mpr (projectAxis_nonpos hn))

/-- The points of a projection are those points of the box that lie in the index region. -/
theorem mem_projectPart (hlo : s.NonEmpty → s.FromMinusOne) (ho : IsOffset o) :
    (∃ u, projectPart o s = some u ∧ c ∈ u.points) ↔ c ∈ s.cells ∧ InClass o c := by
  rw [projectPart_eq]
  by_cases hs : s.NonEmpty
  · rw [← mem_projectBox hs (hlo hs) ho]
    constructor
    · rintro ⟨u, hu, hc⟩
      split_ifs at hu
      rwa [Option.some.inj hu]
    · intro hc
      have hne : (projectBox o s).NonEmpty := by
        by_contra hne
        rw [points_eq_nil hne] at hc
        exact absurd hc List.not_mem_nil
      exact ⟨projectBox o s, if_pos hne, hc⟩
  · rw [if_neg (projectBox_empty hs o), cells_eq_empty hs]
    simp

end Part

/-! ## Regions -/

/-- The parts for one offset after the other. -/
def projectParts (rb : List Cell) (sa : SubgridArray) : List Subregion := rb.flatMap fun o => sa.filterMap (projectPart o)

theorem projectRBPoint_eq (region : Region) (rb : List Cell) : projectRBPoint region rb = region.map (projectParts rb) := by
  have hrun : ∀ (rb : List Cell) (f : SubgridArray → List Subregion),
      rb.foldl (fun newRegion o => List.zipWith (fun new tmp => new ++ tmp) newRegion
        (projectRegion region 2 2 2 o.1 o.2.1 o.2.2)) (region.map f) = region.map fun sa => f sa ++ projectParts rb sa := by
    intro rb
    induction rb with
    | nil =>
      intro f
      simp [projectParts]
    | cons o rb ih =>
      intro f
      have hstep : List.zipWith (fun new tmp => new ++ tmp) (region.map f) (projectRegion region 2 2 2 o.1 o.2.1 o.2.2) =
          region.map fun sa => f sa ++ sa.filterMap (projectPart o) := by
        unfold projectRegion
        rw [List.zipWith_map, List.zipWith_self]
        rfl
      rw [List.foldl_cons, hstep, ih]
      simp [projectParts]
  exact (hrun rb fun _ => []).trans (by simp)

section Parts

variable {sa : SubgridArray} {rb : List Cell} {c : Cell}

theorem mem_projectParts {u : Subregion} : u ∈ projectParts rb sa ↔ ∃ o ∈ rb, ∃ s ∈ sa, projectPart o s = some u := by
  simp [projectParts]

/-- The parts for a process are the parts of its boxes. -/
theorem projectParts_filter (rb : List Cell) (sa : SubgridArray) (p : ℤ) :
    (projectParts rb sa).filter (fun u => u.process = p) = projectParts rb (sa.filter fun s => s.process = p) := by
  unfold projectParts
  rw [List.filter_flatMap]
  apply List.flatMap_congr
  intro o _
  rw [List.filter_filterMap, List.filterMap_filter]
  apply List.filterMap_congr
  intro s _
  cases h : projectPart o s with
  | none => simp
  | some u =>
    have hp : u.process = s.process := by
      rw [(projectPart_eq_some h).2]
      rfl
    simp [hp, Option.filter]

theorem projectParts_setProcess (rb : List Cell) (sa : SubgridArray) (p : ℤ) :
    projectParts rb (sa.map fun s => s.setProcess p) = (projectParts rb sa).map fun u => u.setProcess p := by
  unfold projectParts
  rw [List.map_flatMap]
  apply List.flatMap_congr
  intro o _
  rw [List.filterMap_map, List.map_filterMap]
  apply List.filterMap_congr
  intro s _
  exact projectPart_setProcess o s p

variable (hlo : ∀ s ∈ sa, s.NonEmpty → s.FromMinusOne) (hrb : ∀ o ∈ rb, IsOffset o)

include hlo hrb

theorem mem_points_projectParts : (∃ u ∈ projectParts rb sa, c ∈ u.points) ↔ (∃ s ∈ sa, c ∈ s.cells) ∧ ∃ o ∈ rb, InClass o c := by
  simp only [mem_projectParts]
  constructor
  · rintro ⟨u, ⟨o, ho, s, hs, hu⟩, hc⟩
    obtain ⟨hcs, hco⟩ := (mem_projectPart (hlo s hs) (hrb o ho)).mp ⟨u, hu, hc⟩
    exact ⟨⟨s, hs, hcs⟩, o, ho, hco⟩
  · rintro ⟨⟨s, hs, hcs⟩, o, ho, hco⟩
    obtain ⟨u, hu, hc⟩ := (mem_projectPart (hlo s hs) (hrb o ho)).mpr ⟨hcs, hco⟩
    exact ⟨u, ⟨o, ho, s, hs, hu⟩, hc⟩

/-- Different boxes have different cells, and different offsets different index regions. -/
theorem projectParts_disjoint (hdisj : sa.Pairwise fun s t => Disjoint s.cells t.cells)
    (hclasses : rb.Pairwise fun o o' => ∀ c, ¬ (InClass o c ∧ InClass o' c)) :
    (projectParts rb sa).Pairwise fun u w => u.points.Disjoint w.points := by
  unfold projectParts
  rw [List.pairwise_flatMap]
  constructor
  · intro o ho
    rw [List.pairwise_filterMap]
    refine hdisj.imp_of_mem ?_
    intro s t hs ht hst u hu w hw c hcu hcw
    have hcs := ((mem_projectPart (hlo s hs) (hrb o ho)).mp ⟨u, hu, hcu⟩).1
    have hct := ((mem_projectPart (hlo t ht) (hrb o ho)).mp ⟨w, hw, hcw⟩).1
    exact Finset.disjoint_left.mp hst hcs hct
  · refine hclasses.imp_of_mem ?_
    intro o o' ho ho' hoo u hu w hw c hcu hcw
    obtain ⟨s, hs, hsu⟩ := List.mem_filterMap.mp hu
    obtain ⟨t, ht, htw⟩ := List.mem_filterMap.mp hw
    have hco := ((mem_projectPart (hlo s hs) (hrb o ho)).mp ⟨u, hsu, hcu⟩).2
    have hco' := ((mem_projectPart (hlo t ht) (hrb o' ho')).mp ⟨w, htw, hcw⟩).2
    exact hoo c ⟨hco, hco'⟩

end Parts

/-! ## The two colours -/

theorem inClass_ne {o o' : Cell} (ho : IsOffset o) (ho' : IsOffset o') (hne : o ≠ o') (c : Cell) :
    ¬ (InClass o c ∧ InClass o' c) := by
  rintro ⟨⟨h₁, h₂, h₃⟩, h₄, h₅, h₆⟩
  obtain ⟨hx, hy, hz⟩ := ho
  obtain ⟨hx', hy', hz'⟩ := ho'
  apply hne
  exact Prod.ext (by omega) (Prod.ext (by omega) (by omega))

theorem red_isOffset : ∀ o ∈ red, IsOffset o := by decide

theorem black_isOffset : ∀ o ∈ black, IsOffset o := by decide

theorem pairwise_inClass {rb : List Cell} (hrb : ∀ o ∈ rb, IsOffset o) (hnodup : rb.Nodup) :
    rb.Pairwise fun o o' => ∀ c, ¬ (InClass o c ∧ InClass o' c) := by
  refine hnodup.imp_of_mem ?_
  intro o o' ho ho' hne
  exact inClass_ne (hrb o ho) (hrb o' ho') hne

theorem red_inClass {c : Cell} : (∃ o ∈ red, InClass o c) ↔ IsRed c := by
  simp only [red, List.mem_cons, List.not_mem_nil, or_false, exists_eq_or_imp, exists_eq_left, InClass, IsRed]
  omega

theorem black_inClass {c : Cell} : (∃ o ∈ black, InClass o c) ↔ ¬ IsRed c := by
  simp only [black, List.mem_cons, List.not_mem_nil, or_false, exists_eq_or_imp, exists_eq_left, InClass, IsRed]
  omega

/-- A neighbour along an axis has the other colour. -/
theorem isRed_add {c v : Cell} (hv : v ∈ updateAllShape) : IsRed (c + v) ↔ ¬ IsRed c := by
  simp only [updateAllShape, List.mem_cons, List.not_mem_nil, or_false] at hv
  unfold IsRed
  rcases hv with rfl | rfl | rfl | rfl | rfl | rfl
  all_goals
    simp only [Prod.fst_add, Prod.snd_add]
    omega

end ParFlow

/-! The red and the black projection of a region tile its points by colour, counted with multiplicity. -/

namespace ParFlow

open Subregion

/-- The points of an array of subregions, one subregion after the other. -/
def arrayPoints (sa : List Subregion) : List Cell := sa.flatMap points

section Count

variable {sa : SubgridArray} {s : Subgrid} {o c : Cell}

theorem count_points (h : s.Strided) : s.points.count c = if c ∈ s.points then 1 else 0 := (points_nodup h).count

/-- A part of a subgrid has its points of one class. -/
theorem count_projectPart (hs : s.UnitStride) (hlo : s.FromMinusOne) (ho : IsOffset o) :
    (arrayPoints (projectPart o s).toList).count c = if InClass o c then s.points.count c else 0 := by
  have hmem := mem_projectPart (fun _ => hlo) ho (c := c) (s := s)
  rw [← mem_points_iff hs] at hmem
  have hcount := count_points (c := c) hs.strided
  cases hu : projectPart o s with
  | none =>
    have hnone : ¬ (c ∈ s.points ∧ InClass o c) := by
      rw [← hmem, hu]
      simp
    simp only [Option.toList_none, arrayPoints, List.flatMap_nil, List.count_nil, hcount]
    split_ifs with hco hc
    · exact absurd ⟨hc, hco⟩ hnone
    · rfl
    · rfl
  | some u =>
    have hiff : c ∈ u.points ↔ c ∈ s.points ∧ InClass o c := by
      rw [← hmem, hu]
      simp
    have hstrided : u.Strided := by
      rw [(projectPart_eq_some hu).2]
      exact projectBox_strided o s
    simp only [Option.toList_some, arrayPoints, List.flatMap_cons, List.flatMap_nil, List.append_nil,
      count_points hstrided, hcount, hiff]
    by_cases hco : InClass o c
    · simp [hco]
    · simp [hco]

variable (hunit : ∀ s ∈ sa, s.UnitStride) (hlo : ∀ s ∈ sa, s.FromMinusOne)

include hunit hlo

theorem count_projectPart_array (ho : IsOffset o) :
    (arrayPoints (sa.filterMap (projectPart o))).count c = if InClass o c then (arrayPoints sa).count c else 0 := by
  induction sa with
  | nil => simp [arrayPoints]
  | cons s sa ih =>
    have hhead := count_projectPart (c := c) (hunit s List.mem_cons_self) (hlo s List.mem_cons_self) ho
    have htail := ih (fun t ht => hunit t (List.mem_cons_of_mem s ht)) fun t ht => hlo t (List.mem_cons_of_mem s ht)
    have hsplit : arrayPoints ((s :: sa).filterMap (projectPart o)) =
        arrayPoints (projectPart o s).toList ++ arrayPoints (sa.filterMap (projectPart o)) := by
      unfold arrayPoints
      rw [← List.flatMap_append, List.filterMap_cons]
      cases projectPart o s <;> rfl
    have hcons : arrayPoints (s :: sa) = s.points ++ arrayPoints sa := List.flatMap_cons
    rw [hsplit, List.count_append, hhead, htail, hcons, List.count_append]
    split_ifs
    · rfl
    · rfl

/-- The parts for a table of offsets have each point once for every class of the table that it lies in. -/
theorem count_projectParts {rb : List Cell} (hrb : ∀ o ∈ rb, IsOffset o) :
    (arrayPoints (projectParts rb sa)).count c = rb.countP (fun o => InClass o c) * (arrayPoints sa).count c := by
  induction rb with
  | nil => simp [arrayPoints, projectParts]
  | cons o rb ih =>
    have hsplit : arrayPoints (projectParts (o :: rb) sa) =
        arrayPoints (sa.filterMap (projectPart o)) ++ arrayPoints (projectParts rb sa) := by
      unfold arrayPoints projectParts
      rw [List.flatMap_cons, List.flatMap_append]
    rw [hsplit, List.count_append, count_projectPart_array hunit hlo (hrb o List.mem_cons_self),
      ih fun o' ho' => hrb o' (List.mem_cons_of_mem o ho'), List.countP_cons, add_mul, add_comm]
    split_ifs with h₁ h₂ h₂
    · rw [one_mul]
    · exact absurd (decide_eq_true h₁) h₂
    · exact absurd (of_decide_eq_true h₂) h₁
    · rw [zero_mul]

end Count

/-! ## The two tables -/

/-- The classes of a table exclude each other, so that a point lies in one of them at most. -/
theorem countP_inClass {rb : List Cell} (hrb : ∀ o ∈ rb, IsOffset o) (hnodup : rb.Nodup) (c : Cell) :
    rb.countP (fun o => InClass o c) = if ∃ o ∈ rb, InClass o c then 1 else 0 := by
  have hclasses := pairwise_inClass hrb hnodup
  clear hrb hnodup
  induction rb with
  | nil => simp
  | cons o rb ih =>
    obtain ⟨hhead, htail⟩ := List.pairwise_cons.mp hclasses
    by_cases ho : InClass o c
    · have hzero : rb.countP (fun o => InClass o c) = 0 := by
        rw [List.countP_eq_zero]
        intro o' ho' hc
        exact hhead o' ho' c ⟨ho, of_decide_eq_true hc⟩
      rw [List.countP_cons, hzero, if_pos (decide_eq_true ho), if_pos ⟨o, List.mem_cons_self, ho⟩]
    · have hdec : ¬ (decide (InClass o c) = true) := fun h => ho (of_decide_eq_true h)
      rw [List.countP_cons, ih htail, if_neg hdec, add_zero]
      simp only [List.exists_mem_cons_iff, ho, false_or]

section Colours

variable {sa : SubgridArray} (hunit : ∀ s ∈ sa, s.UnitStride) (hlo : ∀ s ∈ sa, s.FromMinusOne)

include hunit hlo

/-- The parts for a table have the points of the table's classes. -/
theorem projectParts_perm {rb : List Cell} {p : Cell → Bool} (hrb : ∀ o ∈ rb, IsOffset o) (hnodup : rb.Nodup)
    (hp : ∀ c, (∃ o ∈ rb, InClass o c) ↔ p c = true) :
    (arrayPoints (projectParts rb sa)).Perm ((arrayPoints sa).filter p) := by
  rw [List.perm_iff_count]
  intro c
  rw [count_projectParts hunit hlo hrb, countP_inClass hrb hnodup]
  simp only [hp]
  by_cases hc : p c = true
  · rw [if_pos hc, one_mul, List.count_filter hc]
  · rw [if_neg hc, zero_mul, eq_comm, List.count_eq_zero]
    exact fun hmem => hc (List.mem_filter.mp hmem).2

theorem red_perm : (arrayPoints (projectParts red sa)).Perm ((arrayPoints sa).filter fun c => IsRed c) := by
  apply projectParts_perm hunit hlo red_isOffset (by decide)
  intro c
  rw [red_inClass, decide_eq_true_iff]

theorem black_perm : (arrayPoints (projectParts black sa)).Perm ((arrayPoints sa).filter fun c => ¬ IsRed c) := by
  apply projectParts_perm hunit hlo black_isOffset (by decide)
  intro c
  rw [black_inClass, decide_eq_true_iff]

end Colours

/-! ## Regions -/

/-- The points of `parts` are those of `sa` with the property, each as often as there. -/
def HasPointsOf (p : Cell → Bool) (sa parts : List Subregion) : Prop :=
  (arrayPoints parts).Perm ((arrayPoints sa).filter p)

theorem forall₂_map {α β : Type} {R : α → β → Prop} {f : α → β} {l : List α} (h : ∀ a ∈ l, R a (f a)) :
    List.Forall₂ R l (l.map f) := by
  rw [List.forall₂_map_right_iff, List.forall₂_same]
  exact h

/-- The red parts have the red points of every array, the black parts the black ones, and together they have
each point as often as the array. -/
theorem redBlack_partition (region : Region) (hunit : ∀ sa ∈ region, ∀ s ∈ sa, s.UnitStride)
    (hlo : ∀ sa ∈ region, ∀ s ∈ sa, 0 ≤ s.ix ∧ 0 ≤ s.iy ∧ 0 ≤ s.iz) :
    List.Forall₂ (HasPointsOf fun c => IsRed c) region (projectRBPoint region red) ∧
      List.Forall₂ (HasPointsOf fun c => ¬ IsRed c) region (projectRBPoint region black) ∧
      List.Forall₂ (HasPointsOf fun _ => true) region
        (List.zipWith (· ++ ·) (projectRBPoint region red) (projectRBPoint region black)) := by
  have hminus : ∀ sa ∈ region, ∀ s ∈ sa, s.FromMinusOne := by
    intro sa hsa s hs
    obtain ⟨hx, hy, hz⟩ := hlo sa hsa s hs
    unfold FromMinusOne
    omega
  rw [projectRBPoint_eq, projectRBPoint_eq]
  refine ⟨forall₂_map fun sa hsa => red_perm (hunit sa hsa) (hminus sa hsa),
    forall₂_map fun sa hsa => black_perm (hunit sa hsa) (hminus sa hsa), ?_⟩
  rw [List.zipWith_map, List.zipWith_self]
  apply forall₂_map
  intro sa hsa
  unfold HasPointsOf
  have hboth : arrayPoints (projectParts red sa ++ projectParts black sa) =
      arrayPoints (projectParts red sa) ++ arrayPoints (projectParts black sa) := List.flatMap_append
  rw [List.filter_true, hboth]
  apply ((red_perm (hunit sa hsa) (hminus sa hsa)).append (black_perm (hunit sa hsa) (hminus sa hsa))).trans
  simp only [decide_not]
  exact List.filter_append_perm _ _

theorem redBlack_partition_cube : List.Forall₂ (HasPointsOf fun c => IsRed c) [[newSubgrid 0 1 2 3 1 1 0 0 0 0]]
    (projectRBPoint [[newSubgrid 0 1 2 3 1 1 0 0 0 0]] red) :=
  (redBlack_partition [[newSubgrid 0 1 2 3 1 1 0 0 0 0]] (by decide) (by decide)).1

end ParFlow
