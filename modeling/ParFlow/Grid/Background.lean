import Mathlib.Order.Bounds.Basic
import ParFlow.Grid.SubgridCells
import ParFlow.Comm.ComputeDefs
import ParFlow.Pfb.SubgridInfoDefs

/-! The background of a grid (`NewGrid` of `grid.c`) and the sizes a PFB header takes from it. -/

namespace ParFlow

/-! ## Running bounds -/

section Running

variable {α β : Type} [LinearOrder α] (f : β → α)

theorem isLeast_foldl (m : α) (l : List β) :
    IsLeast (insert m {x | ∃ b ∈ l, f b = x}) (l.foldl (fun m b => if f b < m then f b else m) m) := by
  induction l generalizing m with
  | nil => simp [IsLeast, lowerBounds]
  | cons b l ih =>
    obtain ⟨hmem, hle⟩ := ih (if f b < m then f b else m)
    rw [List.foldl_cons]
    constructor
    · rcases hmem with h | ⟨b', hb', h⟩
      · split_ifs at h with hb
        · exact Or.inr ⟨b, List.mem_cons_self, by rw [if_pos hb, h]⟩
        · exact Or.inl (by rw [if_neg hb, h])
      · exact Or.inr ⟨b', List.mem_cons_of_mem b hb', h⟩
    · have hstart := hle (Set.mem_insert _ _)
      intro x hx
      rcases hx with rfl | ⟨b', hb', rfl⟩
      · apply hstart.trans
        split_ifs with hb
        · exact hb.le
        · exact le_rfl
      · rcases List.mem_cons.mp hb' with rfl | hb'
        · apply hstart.trans
          split_ifs with hb
          · exact le_rfl
          · exact not_lt.mp hb
        · exact hle (Or.inr ⟨b', hb', rfl⟩)

/-- The running upper bound is the running lower bound of the opposite order. -/
theorem isGreatest_foldl (m : α) (l : List β) :
    IsGreatest (insert m {x | ∃ b ∈ l, f b = x}) (l.foldl (fun m b => if f b > m then f b else m) m) :=
  isLeast_foldl (α := αᵒᵈ) f m l

end Running

/-! ## The grid -/

def INT_MAX : ℤ := 2147483647

def INT_MIN : ℤ := -2147483648

/-- The loop variables of `NewGrid`. -/
structure GridBounds where
  ix : ℤ
  iy : ℤ
  iz : ℤ
  nx : ℤ
  ny : ℤ
  nz : ℤ
  size : ℤ
  deriving DecidableEq, Repr

namespace GridBounds

def low (b : GridBounds) : Axis → ℤ
  | .x => b.ix
  | .y => b.iy
  | .z => b.iz

/-- The fields named after sizes run over the upper ends. -/
def up (b : GridBounds) : Axis → ℤ
  | .x => b.nx
  | .y => b.ny
  | .z => b.nz

def extend (b : GridBounds) (s : Subgrid) : GridBounds :=
  { size := b.size + s.nx * s.ny * s.nz
    ix := if s.ix < b.ix then s.ix else b.ix
    iy := if s.iy < b.iy then s.iy else b.iy
    iz := if s.iz < b.iz then s.iz else b.iz
    nx := if s.ix + s.nx > b.nx then s.ix + s.nx else b.nx
    ny := if s.iy + s.ny > b.ny then s.iy + s.ny else b.ny
    nz := if s.iz + s.nz > b.nz then s.iz + s.nz else b.nz }

def start : GridBounds := ⟨INT_MAX, INT_MAX, INT_MAX, INT_MIN, INT_MIN, INT_MIN, 0⟩

end GridBounds

/-- A grid with its number of points and its background. -/
structure FullGrid extends Grid where
  size : ℤ
  background : Subgrid

def newGrid (subgrids allSubgrids : SubgridArray) : FullGrid :=
  let b := allSubgrids.foldl GridBounds.extend GridBounds.start
  { subgrids := subgrids
    allSubgrids := allSubgrids
    size := b.size
    background := newSubgrid b.ix b.iy b.iz b.nx b.ny b.nz 1 1 1 0 }

/-- The lower index, the size and the resolution keys of the user's grid, where they are given. -/
structure UserGridKeys where
  lower : Axis → Option ℤ
  num : Axis → ℤ
  resolution : Axis → Option ℤ

def readUserSubgrid (keys : UserGridKeys) : Subgrid :=
  newSubgrid ((keys.lower .x).getD 0) ((keys.lower .y).getD 0) ((keys.lower .z).getD 0)
    (keys.num .x) (keys.num .y) (keys.num .z)
    ((keys.resolution .x).getD 0) ((keys.resolution .y).getD 0) ((keys.resolution .z).getD 0) (-1)

/-- The header takes its sizes from the background of the grid. -/
def headerBackground {α : Type} (lower d : α × α × α) (grid : FullGrid) : Pfb.Background α :=
  { x := lower.1
    y := lower.2.1
    z := lower.2.2
    nx := grid.background.nx
    ny := grid.background.ny
    nz := grid.background.nz
    dx := d.1
    dy := d.2.1
    dz := d.2.2 }

def headerNum {α : Type} (bg : Pfb.Background α) : Axis → ℤ
  | .x => bg.nx
  | .y => bg.ny
  | .z => bg.nz

/-! ## The bounding box -/

/-- The lower indices of the subgrids along an axis. -/
def lowers (subgrids : SubgridArray) (a : Axis) : Set ℤ := {l | ∃ s ∈ subgrids, s.lo a = l}

/-- The upper ends of the subgrids along an axis. -/
def uppers (subgrids : SubgridArray) (a : Axis) : Set ℤ := {u | ∃ s ∈ subgrids, s.lo a + s.num a = u}

def IsBoundingBox (box : Subgrid) (subgrids : SubgridArray) : Prop :=
  ∀ a, IsLeast (lowers subgrids a) (box.lo a) ∧ IsGreatest (uppers subgrids a) (box.lo a + box.num a)

/-- The header has the extent of the subgrids on every axis. -/
def HasTrueSizes {α : Type} (bg : Pfb.Background α) (subgrids : SubgridArray) : Prop :=
  ∀ a, ∃ l u, IsLeast (lowers subgrids a) l ∧ IsGreatest (uppers subgrids a) u ∧ headerNum bg a = u - l

/-- The bounds of the subgrids are `int`s. -/
def IntBounds (subgrids : SubgridArray) : Prop :=
  ∀ s ∈ subgrids, ∀ a, s.lo a ≤ INT_MAX ∧ INT_MIN ≤ s.lo a + s.num a

namespace GridBounds

theorem low_foldl (a : Axis) (b : GridBounds) (l : SubgridArray) : (l.foldl extend b).low a =
    l.foldl (fun m s => if s.lo a < m then s.lo a else m) (b.low a) := by
  induction l generalizing b with
  | nil => rfl
  | cons s l ih =>
    rw [List.foldl_cons, List.foldl_cons, ih]
    cases a <;> rfl

theorem up_foldl (a : Axis) (b : GridBounds) (l : SubgridArray) : (l.foldl extend b).up a =
    l.foldl (fun m s => if s.lo a + s.num a > m then s.lo a + s.num a else m) (b.up a) := by
  induction l generalizing b with
  | nil => rfl
  | cons s l ih =>
    rw [List.foldl_cons, List.foldl_cons, ih]
    cases a <;> rfl

end GridBounds

variable {subgrids all : SubgridArray} {a : Axis}

theorem newGrid_lo : (newGrid subgrids all).background.lo a =
    (all.foldl GridBounds.extend GridBounds.start).low a := by
  cases a <;> rfl

theorem newGrid_num : (newGrid subgrids all).background.num a =
    (all.foldl GridBounds.extend GridBounds.start).up a := by
  cases a <;> rfl

/-- The start of a running bound drops out where an element passes it. -/
theorem newGrid_lo_isLeast (hne : all ≠ []) (hint : IntBounds all) :
    IsLeast (lowers all a) ((newGrid subgrids all).background.lo a) := by
  have h := isLeast_foldl (fun s : Subgrid => s.lo a) INT_MAX all
  rw [newGrid_lo, GridBounds.low_foldl]
  obtain ⟨s, hs⟩ := List.exists_mem_of_ne_nil all hne
  have hstart : GridBounds.start.low a = INT_MAX := by cases a <;> rfl
  rw [hstart]
  constructor
  · rcases h.1 with heq | hmem
    · have hle := h.2 (Or.inr ⟨s, hs, rfl⟩)
      rw [heq] at hle ⊢
      exact ⟨s, hs, le_antisymm (hint s hs a).1 hle⟩
    · exact hmem
  · intro x hx
    exact h.2 (Or.inr hx)

theorem newGrid_num_isGreatest (hne : all ≠ []) (hint : IntBounds all) :
    IsGreatest (uppers all a) ((newGrid subgrids all).background.num a) := by
  have h := isGreatest_foldl (fun s : Subgrid => s.lo a + s.num a) INT_MIN all
  rw [newGrid_num, GridBounds.up_foldl]
  obtain ⟨s, hs⟩ := List.exists_mem_of_ne_nil all hne
  have hstart : GridBounds.start.up a = INT_MIN := by cases a <;> rfl
  rw [hstart]
  constructor
  · rcases h.1 with heq | hmem
    · have hle := h.2 (Or.inr ⟨s, hs, rfl⟩)
      rw [heq] at hle ⊢
      exact ⟨s, hs, le_antisymm hle (hint s hs a).2⟩
    · exact hmem
  · intro x hx
    exact h.2 (Or.inr hx)

/-- The number of points is counted over all subgrids. -/
theorem newGrid_size : (newGrid subgrids all).size = (all.map fun s => s.nx * s.ny * s.nz).sum := by
  have h : ∀ (l : SubgridArray) (b : GridBounds), (l.foldl GridBounds.extend b).size =
      b.size + (l.map fun s => s.nx * s.ny * s.nz).sum := by
    intro l
    induction l with
    | nil => simp
    | cons s l ih =>
      intro b
      rw [List.foldl_cons, ih, List.map_cons, List.sum_cons]
      exact add_assoc _ _ _
  exact (h all GridBounds.start).trans (zero_add _)

/-- A running upper bound is a size exactly where the lower index it is counted from is zero. -/
theorem newGrid_background_iff {α : Type} (lower d : α × α × α) (hne : all ≠ []) (hint : IntBounds all) :
    (IsBoundingBox (newGrid subgrids all).background all ∧
      HasTrueSizes (headerBackground lower d (newGrid subgrids all)) all) ↔
      ∀ a, IsLeast (lowers all a) 0 := by
  have hlo : ∀ a, IsLeast (lowers all a) ((newGrid subgrids all).background.lo a) :=
    fun a => newGrid_lo_isLeast hne hint
  have hup : ∀ a, IsGreatest (uppers all a) ((newGrid subgrids all).background.num a) :=
    fun a => newGrid_num_isGreatest hne hint
  constructor
  · rintro ⟨hbox, -⟩ a
    have hzero := (hbox a).2.unique (hup a)
    have hl := hlo a
    rwa [show (newGrid subgrids all).background.lo a = 0 by omega] at hl
  · intro h
    have hzero := fun a => (hlo a).unique (h a)
    constructor
    · intro a
      rw [hzero a, zero_add]
      exact ⟨h a, hup a⟩
    · intro a
      refine ⟨0, _, h a, hup a, ?_⟩
      cases a <;> exact (sub_zero _).symm

/-- The user's grid of one cell with the lower index one along the first axis. -/
def shiftedCell : Subgrid :=
  readUserSubgrid ⟨fun a => if a = .x then some 1 else none, fun _ => 1, fun _ => none⟩

theorem shiftedCell_background :
    (IsBoundingBox (newGrid [shiftedCell] [shiftedCell]).background [shiftedCell] ∧
      HasTrueSizes (headerBackground ((0, 0, 0) : ℤ × ℤ × ℤ) (1, 1, 1) (newGrid [shiftedCell] [shiftedCell])) [shiftedCell]) ↔
      ∀ a, IsLeast (lowers [shiftedCell] a) 0 := by
  apply newGrid_background_iff (0, 0, 0) (1, 1, 1) (List.cons_ne_nil _ _)
  intro s hs a
  rw [List.mem_singleton.mp hs]
  cases a <;> decide

/-- The background of that grid ends one cell after it. -/
theorem shiftedCell_not_boundingBox :
    ¬ ∀ subgrids all : SubgridArray, all ≠ [] → IsBoundingBox (newGrid subgrids all).background all := by
  intro h
  obtain ⟨s, hs, hup⟩ := (h [shiftedCell] [shiftedCell] (List.cons_ne_nil _ _) .x).2.1
  rw [List.mem_singleton.mp hs] at hup
  exact absurd hup (by decide)

end ParFlow
