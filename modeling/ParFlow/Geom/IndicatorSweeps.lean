import ParFlow.Geom.OctreeVisits

/-! The sweeps over the lines of an indicator field. They mark both cells of each face between a cell with the indicator
and one without. -/

namespace ParFlow.Geom

open IntLoop GrGeomOctree

variable {level : ℕ}

/-! ## Faces -/

def Face.opposite : Face → Face
  | .L => .R
  | .R => .L
  | .D => .U
  | .U => .D
  | .B => .F
  | .F => .B

/-- The neighbour of a cell across a face. -/
def across : Face → Cell → Cell
  | .L, c => (c.1 - 1, c.2.1, c.2.2)
  | .R, c => (c.1 + 1, c.2.1, c.2.2)
  | .D, c => (c.1, c.2.1 - 1, c.2.2)
  | .U, c => (c.1, c.2.1 + 1, c.2.2)
  | .B, c => (c.1, c.2.1, c.2.2 - 1)
  | .F, c => (c.1, c.2.1, c.2.2 + 1)

theorem across_upper (line : Axis) (i0 i1 i : ℤ) : across (upperFace line) (lineCell line i0 i1 i) = lineCell line i0 i1 (i + 1) := by
  cases line <;> rfl

theorem across_lower (line : Axis) (i0 i1 i : ℤ) : across (lowerFace line) (lineCell line i0 i1 i) = lineCell line i0 i1 (i - 1) := by
  cases line <;> rfl

theorem opposite_upper (line : Axis) : (upperFace line).opposite = lowerFace line := by cases line <;> rfl

theorem opposite_lower (line : Axis) : (lowerFace line).opposite = upperFace line := by cases line <;> rfl

theorem Face.upper_or_lower (f : Face) : ∃ line, f = upperFace line ∨ f = lowerFace line := by
  cases f with
  | L => exact ⟨.x, Or.inr rfl⟩
  | R => exact ⟨.x, Or.inl rfl⟩
  | D => exact ⟨.y, Or.inr rfl⟩
  | U => exact ⟨.y, Or.inl rfl⟩
  | B => exact ⟨.z, Or.inr rfl⟩
  | F => exact ⟨.z, Or.inl rfl⟩

/-- A cell lies on a line along each axis. -/
theorem exists_lineCell (line : Axis) (c : Cell) : c = lineCell line ((crossAxes line).1.coord c) ((crossAxes line).2.coord c)
    (line.coord c) := by cases line <;> rfl

theorem lineCell_coord (line : Axis) (i0 i1 i : ℤ) : (crossAxes line).1.coord (lineCell line i0 i1 i) = i0 ∧
    (crossAxes line).2.coord (lineCell line i0 i1 i) = i1 ∧ line.coord (lineCell line i0 i1 i) = i := by
  cases line <;> exact ⟨rfl, rfl, rfl⟩

theorem lineCell_coord_of_ne {a line : Axis} (h : a ≠ line) (i0 i1 i i' : ℤ) :
    a.coord (lineCell line i0 i1 i) = a.coord (lineCell line i0 i1 i') := by
  cases a <;> cases line <;> first | rfl | exact absurd rfl h

theorem inRange_lineCell {line : Axis} {i0 i1 i i' : ℤ} (h : ¬ OutOfRange (lineCell line i0 i1 i) level)
    (hi : 0 ≤ i' ∧ i' < 2 ^ level) : ¬ OutOfRange (lineCell line i0 i1 i') level := by
  rw [not_outOfRange_iff] at h ⊢
  intro a
  by_cases ha : a = line
  · subst ha
    rw [(lineCell_coord a i0 i1 i').2.2]
    exact hi
  · rw [lineCell_coord_of_ne ha i0 i1 i' i]
    exact h a

/-! ## Marks of a sweep -/

/-- The marks of a face within the extents. -/
def faceMarks (line : Axis) (index0 index1 faceIndex extentLower extentUpper normal : ℤ) : List Mark :=
  (if faceIndex - 1 ≥ extentLower ∧ faceIndex - 1 ≤ extentUpper then
    [⟨lineCell line index0 index1 (faceIndex - 1), normalFlags normal, upperFace line⟩] else []) ++
  if faceIndex ≥ extentLower ∧ faceIndex ≤ extentUpper then
    [⟨lineCell line index0 index1 faceIndex, normalFlags (-normal), lowerFace line⟩] else []

theorem octreeAddFace_eq (octree : GrGeomOctree) (line : Axis) (index0 index1 faceIndex extentLower extentUpper : ℤ)
    (level : ℕ) (normal : ℤ) : octreeAddFace octree line index0 index1 faceIndex extentLower extentUpper level normal =
      (faceMarks line index0 index1 faceIndex extentLower extentUpper normal).foldl (addMark level) octree := by
  unfold octreeAddFace faceMarks
  rw [List.foldl_append]
  split_ifs <;> rfl

/-- The state before a crossing is that of the cell before. -/
theorem edgeTags_eq (state : ℤ → Bool) (num : ℤ) :
    edgeTags state num = (upto 0 (num - 2)).map fun k => (k, edgeTag (state (k + 1)) (state k)) := by
  have hrun : ∀ n : ℕ, ((List.range n).map fun n : ℕ => (0 : ℤ) + n).foldl (fun (st : Bool × List (ℤ × ℤ)) k =>
      (state (k + 1), st.2 ++ [(k, edgeTag (state (k + 1)) st.1)])) (state 0, []) =
      (state n, ((List.range n).map fun n : ℕ => (0 : ℤ) + n).map fun k => (k, edgeTag (state (k + 1)) (state k))) := by
    intro n
    induction n with
    | zero => rfl
    | succ n ih =>
      rw [List.range_succ, List.map_append, List.foldl_append, ih, List.map_append]
      simp
  unfold edgeTags upto
  rw [hrun]

namespace IndicatorSweep

variable (s : IndicatorSweep)

def lineMarks (line : Axis) (i0 i1 : ℤ) : List Mark :=
  let cross := crossAxes line
  (edgeTags (fun k => s.ind (lineCell line (i0 - s.all cross.1) (i1 - s.all cross.2) k)) (s.numAll line)).flatMap fun kt =>
    if kt.2 ≠ 0 then
      faceMarks line (i0 - s.shift cross.1) (i1 - s.shift cross.2) (s.all line + kt.1 + 1 - s.shift line)
        (s.lo line) (s.hi line) kt.2
    else []

def sweepMarks (line : Axis) : List Mark :=
  let cross := crossAxes line
  (upto (s.lo cross.2) (s.hi cross.2 + 1)).flatMap fun i1 =>
    (upto (s.lo cross.1) (s.hi cross.1 + 1)).flatMap fun i0 => s.lineMarks line i0 i1

theorem sweepLine_eq (line : Axis) (octree : GrGeomOctree) (i0 i1 : ℤ) :
    s.sweepLine line octree i0 i1 = (s.lineMarks line i0 i1).foldl (addMark s.level) octree := by
  unfold sweepLine lineMarks
  dsimp only
  rw [List.foldl_flatMap]
  congr 1
  funext octree kt
  split_ifs with h
  · exact octreeAddFace_eq _ _ _ _ _ _ _ _ _
  · rfl

theorem sweep_eq (line : Axis) (octree : GrGeomOctree) :
    s.sweep line octree = (s.sweepMarks line).foldl (addMark s.level) octree := by
  unfold sweep sweepMarks
  simp only [List.foldl_flatMap, sweepLine_eq]

end IndicatorSweep

/-! ## Crossings -/

/-- The bounds of the sweeps over a grid of `num` cells with lower corner 0 and its ghost layer. -/
structure SweepBounds (s : IndicatorSweep) (num : Axis → ℤ) : Prop where
  lo : ∀ a, s.lo a = -1
  hi : ∀ a, s.hi a = min (num a + 1) (2 ^ s.level)
  all : ∀ a, s.all a = -2
  numAll : ∀ a, s.numAll a = num a + 4
  shift : ∀ a, s.shift a = 0
  fits : ∀ a, num a ≤ 2 ^ s.level

/-- The sweeps over such a grid find the cells of a set within it. -/
structure SweepsOver (s : IndicatorSweep) (num : Axis → ℤ) (Ind : Cell → Prop) : Prop extends SweepBounds s num where
  ind : ∀ c : Cell, s.ind (c.1 + 2, c.2.1 + 2, c.2.2 + 2) ↔ Ind c
  within : ∀ c, Ind c → ∀ a : Axis, 0 ≤ a.coord c ∧ a.coord c < num a

/-- The marks on both sides of a face between a cell of the set and one outside of it. -/
def CrossingMark (Ind : Cell → Prop) (m : Mark) : Prop :=
  ∃ p f, Ind p ∧ ¬ Ind (across f p) ∧ (m = ⟨p, nodeInside, f⟩ ∨ m = ⟨across f p, nodeOutside, f.opposite⟩)

/-- The crossing at the upper face of a cell of a line. -/
def LineCrossing (Ind : Cell → Prop) (line : Axis) (i0 i1 i : ℤ) (m : Mark) : Prop :=
  (Ind (lineCell line i0 i1 i) ∧ ¬ Ind (lineCell line i0 i1 (i + 1)) ∧
      (m = ⟨lineCell line i0 i1 i, nodeInside, upperFace line⟩ ∨
        m = ⟨lineCell line i0 i1 (i + 1), nodeOutside, lowerFace line⟩)) ∨
    (¬ Ind (lineCell line i0 i1 i) ∧ Ind (lineCell line i0 i1 (i + 1)) ∧
      (m = ⟨lineCell line i0 i1 i, nodeOutside, upperFace line⟩ ∨
        m = ⟨lineCell line i0 i1 (i + 1), nodeInside, lowerFace line⟩))

theorem crossingMark_iff {Ind : Cell → Prop} {m : Mark} :
    CrossingMark Ind m ↔ ∃ line i0 i1 i, LineCrossing Ind line i0 i1 i m := by
  constructor
  · rintro ⟨p, f, hp, hq, hm⟩
    obtain ⟨line, hf⟩ := f.upper_or_lower
    have hline := exists_lineCell line p
    generalize (crossAxes line).1.coord p = i0, (crossAxes line).2.coord p = i1, line.coord p = i at hline
    subst hline
    rcases hf with rfl | rfl
    · rw [across_upper] at hq hm
      rw [opposite_upper] at hm
      exact ⟨line, i0, i1, i, Or.inl ⟨hp, hq, hm⟩⟩
    · rw [across_lower] at hq hm
      rw [opposite_lower] at hm
      refine ⟨line, i0, i1, i - 1, Or.inr ?_⟩
      rw [sub_add_cancel]
      exact ⟨hq, hp, hm.symm⟩
  · rintro ⟨line, i0, i1, i, ⟨hp, hq, hm⟩ | ⟨hq, hp, hm⟩⟩
    · refine ⟨lineCell line i0 i1 i, upperFace line, hp, ?_⟩
      rw [across_upper, opposite_upper]
      exact ⟨hq, hm⟩
    · refine ⟨lineCell line i0 i1 (i + 1), lowerFace line, hp, ?_⟩
      rw [across_lower, opposite_lower, add_sub_cancel_right]
      exact ⟨hq, hm.symm⟩

section Crossings

variable {s : IndicatorSweep} {num : Axis → ℤ} {Ind : Cell → Prop} {m : Mark}

theorem SweepsOver.ind_line (h : SweepsOver s num Ind) (line : Axis) (i0 i1 i : ℤ) :
    s.ind (lineCell line (i0 + 2) (i1 + 2) (i + 2)) ↔ Ind (lineCell line i0 i1 i) := by
  have hind := h.ind (lineCell line i0 i1 i)
  cases line <;> exact hind

theorem mem_faceMarks {line : Axis} {i0 i1 i lo hi normal : ℤ} (hlo : lo ≤ i) (hhi : i + 1 ≤ hi) :
    m ∈ faceMarks line i0 i1 (i + 1) lo hi normal ↔ m = ⟨lineCell line i0 i1 i, normalFlags normal, upperFace line⟩ ∨
      m = ⟨lineCell line i0 i1 (i + 1), normalFlags (-normal), lowerFace line⟩ := by
  unfold faceMarks
  rw [add_sub_cancel_right, if_pos (by omega), if_pos (by omega), List.mem_append, List.mem_singleton, List.mem_singleton]

/-- A cell of the set is away from the ends of the line. -/
theorem SweepsOver.within_line (h : SweepsOver s num Ind) {line : Axis} {i0 i1 i : ℤ} (hi : Ind (lineCell line i0 i1 i)) :
    (0 ≤ i0 ∧ i0 < num (crossAxes line).1) ∧ (0 ≤ i1 ∧ i1 < num (crossAxes line).2) ∧ 0 ≤ i ∧ i < num line := by
  have hin := h.within _ hi
  obtain ⟨h0, h1, h2⟩ := lineCell_coord line i0 i1 i
  refine ⟨?_, ?_, ?_⟩
  · rw [← h0]
    exact hin _
  · rw [← h1]
    exact hin _
  · rw [← h2]
    exact hin _

/-- The marks at one edge of a line. -/
theorem SweepsOver.mem_edge (h : SweepsOver s num Ind) {line : Axis} {i0 i1 i : ℤ} {state prevState : Bool}
    (hprev : prevState ↔ Ind (lineCell line i0 i1 i)) (hstate : state ↔ Ind (lineCell line i0 i1 (i + 1))) :
    m ∈ (if edgeTag state prevState ≠ 0 then
        faceMarks line i0 i1 (i + 1) (s.lo line) (s.hi line) (edgeTag state prevState) else []) ↔
      LineCrossing Ind line i0 i1 i m := by
  have hextent : Ind (lineCell line i0 i1 i) ∨ Ind (lineCell line i0 i1 (i + 1)) → s.lo line ≤ i ∧ i + 1 ≤ s.hi line := by
    intro hor
    have hfits := h.fits line
    rw [h.lo, h.hi]
    rcases hor with hi | hi
    · have := (h.within_line hi).2.2
      omega
    · have := (h.within_line hi).2.2
      omega
  unfold LineCrossing
  rw [← hprev, ← hstate] at hextent ⊢
  cases prevState <;> cases state
  · exact iff_of_false List.not_mem_nil fun hor => by simp at hor
  · obtain ⟨hlo, hhi⟩ := hextent (Or.inr rfl)
    have htag : edgeTag true false = -1 := rfl
    rw [htag, if_pos (by decide), mem_faceMarks hlo hhi]
    simp [normalFlags]
  · obtain ⟨hlo, hhi⟩ := hextent (Or.inl rfl)
    have htag : edgeTag false true = 1 := rfl
    rw [htag, if_pos (by decide), mem_faceMarks hlo hhi]
    simp [normalFlags]
  · exact iff_of_false List.not_mem_nil fun hor => by simp at hor

theorem SweepsOver.mem_lineMarks (h : SweepsOver s num Ind) (line : Axis) (i0 i1 : ℤ) :
    m ∈ s.lineMarks line i0 i1 ↔ ∃ i, LineCrossing Ind line i0 i1 i m := by
  have hedge : ∀ i : ℤ, m ∈ (if edgeTag (s.ind (lineCell line (i0 + 2) (i1 + 2) (i + 2 + 1)))
        (s.ind (lineCell line (i0 + 2) (i1 + 2) (i + 2))) ≠ 0 then
      faceMarks line i0 i1 (-2 + (i + 2) + 1) (s.lo line) (s.hi line)
        (edgeTag (s.ind (lineCell line (i0 + 2) (i1 + 2) (i + 2 + 1))) (s.ind (lineCell line (i0 + 2) (i1 + 2) (i + 2))))
      else []) ↔ LineCrossing Ind line i0 i1 i m := by
    intro i
    have hface : -2 + (i + 2) + 1 = i + 1 := by ring
    have hnext := h.ind_line line i0 i1 (i + 1)
    rw [add_right_comm i 1 2] at hnext
    rw [hface]
    exact h.mem_edge (h.ind_line line i0 i1 i) hnext
  unfold IndicatorSweep.lineMarks
  dsimp only
  rw [edgeTags_eq, List.mem_flatMap]
  simp only [List.mem_map, h.shift, h.all, h.numAll, sub_zero, sub_neg_eq_add]
  constructor
  · rintro ⟨kt, ⟨k, hk, rfl⟩, hm⟩
    obtain ⟨i, rfl⟩ : ∃ i, k = i + 2 := ⟨k - 2, by ring⟩
    exact ⟨i, (hedge i).mp hm⟩
  · rintro ⟨i, hm⟩
    refine ⟨_, ⟨i + 2, mem_upto.mpr ?_, rfl⟩, (hedge i).mpr hm⟩
    -- the edge lies between the ends of the line
    rcases hm with ⟨hi, -⟩ | ⟨-, hi, -⟩
    · have := (h.within_line hi).2.2
      omega
    · have := (h.within_line hi).2.2
      omega

theorem SweepsOver.mem_sweepMarks (h : SweepsOver s num Ind) (line : Axis) :
    m ∈ s.sweepMarks line ↔ ∃ i0 i1 i, LineCrossing Ind line i0 i1 i m := by
  unfold IndicatorSweep.sweepMarks
  simp only [List.mem_flatMap, mem_upto, h.mem_lineMarks]
  constructor
  · rintro ⟨i1, -, i0, -, i, hm⟩
    exact ⟨i0, i1, i, hm⟩
  · rintro ⟨i0, i1, i, hm⟩
    have hin : (0 ≤ i0 ∧ i0 < num (crossAxes line).1) ∧ (0 ≤ i1 ∧ i1 < num (crossAxes line).2) := by
      rcases hm with ⟨hi, -⟩ | ⟨-, hi, -⟩
      · exact ⟨(h.within_line hi).1, (h.within_line hi).2.1⟩
      · exact ⟨(h.within_line hi).1, (h.within_line hi).2.1⟩
    have hfits := h.fits
    refine ⟨i1, ?_, i0, ?_, i, hm⟩
    · rw [h.lo, h.hi]
      have := hfits (crossAxes line).2
      omega
    · rw [h.lo, h.hi]
      have := hfits (crossAxes line).1
      omega

theorem SweepsOver.inRange (h : SweepsOver s num Ind) {c : Cell} (hc : Ind c) : ¬ OutOfRange c s.level := by
  rw [not_outOfRange_iff]
  intro a
  have hin := h.within c hc a
  exact ⟨hin.1, hin.2.trans_le (h.fits a)⟩

/-- The sweeps mark the crossings, in whatever order. -/
theorem SweepsOver.markedBy (h : SweepsOver s num Ind) :
    ∃ ms, MarkedBy s.level ms (s.sweep .x (s.sweep .y (s.sweep .z newOctree))) ∧ ∀ m, m ∈ ms ↔ CrossingMark Ind m := by
  have hmem : ∀ m, m ∈ s.sweepMarks .z ++ s.sweepMarks .y ++ s.sweepMarks .x ↔ CrossingMark Ind m := by
    intro m
    rw [List.mem_append, List.mem_append, h.mem_sweepMarks, h.mem_sweepMarks, h.mem_sweepMarks, crossingMark_iff]
    constructor
    · rintro ((hm | hm) | hm)
      · exact ⟨.z, hm⟩
      · exact ⟨.y, hm⟩
      · exact ⟨.x, hm⟩
    · rintro ⟨line, hm⟩
      cases line with
      | x => exact Or.inr hm
      | y => exact Or.inl (Or.inr hm)
      | z => exact Or.inl (Or.inl hm)
  refine ⟨_, ?_, hmem⟩
  rw [s.sweep_eq, s.sweep_eq, s.sweep_eq, ← List.foldl_append, ← List.foldl_append, ← List.append_assoc]
  apply markedBy_foldl
  intro m hm
  obtain ⟨p, f, -, -, rfl | rfl⟩ := (hmem m).mp hm
  · exact Or.inl rfl
  · exact Or.inr rfl

/-- A mark beyond the bounds wraps around to the other end of the line, where the grid ends too. -/
theorem SweepsOver.hit_across (h : SweepsOver s num Ind) (hm : CrossingMark Ind m) {c : Cell} (hhit : m.Hits s.level c)
    (hc : Ind c) : ¬ Ind (across m.face c) := by
  obtain ⟨p, f, hp, hq, rfl | rfl⟩ := hm
  · rwa [eq_of_samePath (h.inRange hp) (h.inRange hc) hhit] at hq
  · by_cases hrange : OutOfRange (across f p) s.level
    · obtain ⟨line, hf⟩ := f.upper_or_lower
      have hwrap := samePath_iff.mp hhit line
      have hpline := exists_lineCell line p
      generalize (crossAxes line).1.coord p = i0, (crossAxes line).2.coord p = i1, line.coord p = i at hpline
      have hcline := exists_lineCell line c
      generalize (crossAxes line).1.coord c = j0, (crossAxes line).2.coord c = j1, line.coord c = j at hcline
      subst hpline hcline
      have hi := (h.within_line hp).2.2
      have hj := (h.within_line hc).2.2
      have hfits := h.fits line
      rcases hf with rfl | rfl
      · rw [across_upper] at hrange hwrap
        rw [(lineCell_coord line i0 i1 (i + 1)).2.2, (lineCell_coord line j0 j1 j).2.2] at hwrap
        have hend : i + 1 = 2 ^ s.level := by
          by_contra hne
          exact inRange_lineCell (h.inRange hp) ⟨by omega, by omega⟩ hrange
        rw [hend, Int.emod_self, Int.emod_eq_of_lt hj.1 (by omega)] at hwrap
        rw [opposite_upper, across_lower]
        intro hlow
        have := (h.within_line hlow).2.2
        omega
      · rw [across_lower] at hrange hwrap
        rw [(lineCell_coord line i0 i1 (i - 1)).2.2, (lineCell_coord line j0 j1 j).2.2] at hwrap
        have hend : i = 0 := by
          by_contra hne
          exact inRange_lineCell (h.inRange hp) ⟨by omega, by omega⟩ hrange
        subst hend
        rw [Int.emod_eq_of_lt hj.1 (by omega), ← Int.add_emod_right, Int.emod_eq_of_lt (by omega) (by omega)] at hwrap
        rw [opposite_lower, across_upper]
        intro hup
        have := (h.within_line hup).2.2
        omega
    · exact absurd hc (eq_of_samePath hrange (h.inRange hc) hhit ▸ hq)

end Crossings

end ParFlow.Geom
