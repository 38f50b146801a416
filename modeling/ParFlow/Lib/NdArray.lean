import Mathlib

/-! Arrays with three axes, their slices, transposes and assignment to a slice. -/

structure NdArray (α : Type) where
  dims : ℤ × ℤ × ℤ
  get : ℤ × ℤ × ℤ → α

namespace NdArray

variable {α : Type}

/-- An index with three axes inside the bounds. -/
def InDims (d c : ℤ × ℤ × ℤ) : Prop :=
  (0 ≤ c.1 ∧ c.1 < d.1) ∧ (0 ≤ c.2.1 ∧ c.2.1 < d.2.1) ∧ 0 ≤ c.2.2 ∧ c.2.2 < d.2.2

/-- Arrays with the same elements. -/
def Same (a b : NdArray α) : Prop := a.dims = b.dims ∧ ∀ c, InDims a.dims c → a.get c = b.get c

/-- A bound of a slice: a negative one counts from the end, and all are cut to the array. -/
def clampIndex (dim i : ℤ) : ℤ := if i < 0 then max (i + dim) 0 else min i dim

/-- The first index and the length of the slice `start:stop`; without `stop` it goes to the end. -/
def sliceBounds (dim : ℤ) (s : ℤ × Option ℤ) : ℤ × ℤ :=
  let lo := clampIndex dim s.1
  let hi := match s.2 with
    | none => dim
    | some stop => clampIndex dim stop
  (lo, max (hi - lo) 0)

theorem sliceBounds_some {dim lo n : ℤ} (hlo : 0 ≤ lo) (hn : 0 ≤ n) (h : lo + n ≤ dim) :
    sliceBounds dim (lo, some (lo + n)) = (lo, n) := by
  simp only [sliceBounds, clampIndex, if_neg (show ¬ lo < 0 by omega), if_neg (show ¬ lo + n < 0 by omega), Prod.mk.injEq]
  omega

theorem sliceBounds_none {dim lo : ℤ} (hlo : 0 ≤ lo) (h : lo ≤ dim) : sliceBounds dim (lo, none) = (lo, dim - lo) := by
  simp only [sliceBounds, clampIndex, if_neg (show ¬ lo < 0 by omega), Prod.mk.injEq]
  omega

def slice (a : NdArray α) (s0 s1 s2 : ℤ × Option ℤ) : NdArray α :=
  let b0 := sliceBounds a.dims.1 s0
  let b1 := sliceBounds a.dims.2.1 s1
  let b2 := sliceBounds a.dims.2.2 s2
  ⟨(b0.2, b1.2, b2.2), fun c => a.get (b0.1 + c.1, b1.1 + c.2.1, b2.1 + c.2.2)⟩

def transpose (a : NdArray α) : NdArray α :=
  ⟨(a.dims.2.2, a.dims.2.1, a.dims.1), fun c => a.get (c.2.2, c.2.1, c.1)⟩

def map {β : Type} (f : α → β) (a : NdArray α) : NdArray β := ⟨a.dims, fun c => f (a.get c)⟩

/-- A source axis of length one is repeated. -/
def fits (source target : ℤ) : Prop := source = target ∨ source = 1

instance (source target : ℤ) : Decidable (fits source target) := inferInstanceAs (Decidable (_ ∨ _))

def repeatIndex (source i : ℤ) : ℤ := if source = 1 then 0 else i

/-- `a[s0, s1, s2] = b`; `none` when the shapes do not fit. -/
def assign (a : NdArray α) (s0 s1 s2 : ℤ × Option ℤ) (b : NdArray α) : Option (NdArray α) :=
  let b0 := sliceBounds a.dims.1 s0
  let b1 := sliceBounds a.dims.2.1 s1
  let b2 := sliceBounds a.dims.2.2 s2
  if fits b.dims.1 b0.2 ∧ fits b.dims.2.1 b1.2 ∧ fits b.dims.2.2 b2.2 then
    some ⟨a.dims, fun c =>
      if (b0.1 ≤ c.1 ∧ c.1 < b0.1 + b0.2) ∧ (b1.1 ≤ c.2.1 ∧ c.2.1 < b1.1 + b1.2) ∧
          b2.1 ≤ c.2.2 ∧ c.2.2 < b2.1 + b2.2 then
        b.get (repeatIndex b.dims.1 (c.1 - b0.1), repeatIndex b.dims.2.1 (c.2.1 - b1.1),
          repeatIndex b.dims.2.2 (c.2.2 - b2.1))
      else a.get c⟩
  else none

theorem repeatIndex_eq {n i : ℤ} (h : 0 ≤ i ∧ i < n) : repeatIndex n i = i := by
  unfold repeatIndex
  split_ifs <;> omega

theorem sliceBounds_all {dim : ℤ} (h : 0 ≤ dim) : sliceBounds dim (0, none) = (0, dim) := by
  rw [sliceBounds_none le_rfl h, sub_zero]

/-- The whole array is overwritten. -/
theorem get_of_assign_all {a b a' : NdArray α} (h0 : 0 ≤ a.dims.1) (h1 : 0 ≤ a.dims.2.1) (h2 : 0 ≤ a.dims.2.2)
    (h : a.assign (0, none) (0, none) (0, none) b = some a') {c : ℤ × ℤ × ℤ} (hc : InDims a.dims c) :
    a'.get c = b.get (repeatIndex b.dims.1 c.1, repeatIndex b.dims.2.1 c.2.1, repeatIndex b.dims.2.2 c.2.2) := by
  unfold assign at h
  simp only [sliceBounds_all h0, sliceBounds_all h1, sliceBounds_all h2, Option.ite_none_right_eq_some,
    Option.some.injEq] at h
  obtain ⟨-, rfl⟩ := h
  obtain ⟨hx, hy, hz⟩ := hc
  simp only [sub_zero]
  rw [if_pos (by omega)]

theorem assign_all_isSome {a b : NdArray α} (h0 : 0 ≤ a.dims.1) (h1 : 0 ≤ a.dims.2.1) (h2 : 0 ≤ a.dims.2.2)
    (h : b.dims = a.dims) : ∃ a', a.assign (0, none) (0, none) (0, none) b = some a' := by
  unfold assign
  simp only [sliceBounds_all h0, sliceBounds_all h1, sliceBounds_all h2]
  rw [if_pos ⟨Or.inl (by rw [h]), Or.inl (by rw [h]), Or.inl (by rw [h])⟩]
  exact ⟨_, rfl⟩

/-- A block that lies in the array replaces the elements there. -/
theorem assign_block (a b : NdArray α) (lo : ℤ × ℤ × ℤ) (h0 : 0 ≤ lo.1 ∧ 0 ≤ b.dims.1 ∧ lo.1 + b.dims.1 ≤ a.dims.1)
    (h1 : 0 ≤ lo.2.1 ∧ 0 ≤ b.dims.2.1 ∧ lo.2.1 + b.dims.2.1 ≤ a.dims.2.1)
    (h2 : 0 ≤ lo.2.2 ∧ 0 ≤ b.dims.2.2 ∧ lo.2.2 + b.dims.2.2 ≤ a.dims.2.2) :
    ∃ a', a.assign (lo.1, some (lo.1 + b.dims.1)) (lo.2.1, some (lo.2.1 + b.dims.2.1))
        (lo.2.2, some (lo.2.2 + b.dims.2.2)) b = some a' ∧ a'.dims = a.dims ∧
      (∀ c, InDims b.dims (c.1 - lo.1, c.2.1 - lo.2.1, c.2.2 - lo.2.2) →
        a'.get c = b.get (c.1 - lo.1, c.2.1 - lo.2.1, c.2.2 - lo.2.2)) ∧
      ∀ c, ¬ InDims b.dims (c.1 - lo.1, c.2.1 - lo.2.1, c.2.2 - lo.2.2) → a'.get c = a.get c := by
  unfold assign
  simp only [sliceBounds_some h0.1 h0.2.1 h0.2.2, sliceBounds_some h1.1 h1.2.1 h1.2.2,
    sliceBounds_some h2.1 h2.2.1 h2.2.2]
  rw [if_pos ⟨Or.inl rfl, Or.inl rfl, Or.inl rfl⟩]
  refine ⟨_, rfl, rfl, ?_, ?_⟩
  · intro c hc
    obtain ⟨hx, hy, hz⟩ := hc
    simp only [repeatIndex_eq hx, repeatIndex_eq hy, repeatIndex_eq hz]
    rw [if_pos (by simp only at hx hy hz; omega)]
  · intro c hc
    simp only
    rw [if_neg]
    intro h
    apply hc
    unfold InDims
    simp only
    omega

end NdArray

/-! Arrays with two axes: their columns and rows, stacking, padding and differences along an axis. -/

structure PlaneArray (α : Type) where
  ny : ℤ
  nx : ℤ
  get : ℤ → ℤ → α

namespace PlaneArray

variable {α β γ : Type}

def map (f : α → β) (a : PlaneArray α) : PlaneArray β := ⟨a.ny, a.nx, fun j i => f (a.get j i)⟩

def zipWith (f : α → β → γ) (a : PlaneArray α) (b : PlaneArray β) : PlaneArray γ :=
  ⟨a.ny, a.nx, fun j i => f (a.get j i) (b.get j i)⟩

/-- `a[-1, ...]` of an array with three axes. -/
def ofLastLayer (a : NdArray α) : PlaneArray α := ⟨a.dims.2.1, a.dims.2.2, fun j i => a.get (a.dims.1 - 1, j, i)⟩

/-! ## Columns -/

/-- `a[:, :-1]` -/
def initColumns (a : PlaneArray α) : PlaneArray α := ⟨a.ny, a.nx - 1, a.get⟩

/-- `a[:, 1:]` -/
def tailColumns (a : PlaneArray α) : PlaneArray α := ⟨a.ny, a.nx - 1, fun j i => a.get j (i + 1)⟩

def firstColumn (a : PlaneArray α) : PlaneArray α := ⟨a.ny, 1, fun j _ => a.get j 0⟩

def lastColumn (a : PlaneArray α) : PlaneArray α := ⟨a.ny, 1, fun j _ => a.get j (a.nx - 1)⟩

def hstack (a b : PlaneArray α) : PlaneArray α :=
  ⟨a.ny, a.nx + b.nx, fun j i => if i < a.nx then a.get j i else b.get j (i - a.nx)⟩

/-- One more column of zeros. -/
def padRight [Zero α] (a : PlaneArray α) : PlaneArray α := ⟨a.ny, a.nx + 1, fun j i => if i < a.nx then a.get j i else 0⟩

/-- `np.diff(a, axis=1, append=0)` -/
def diffColumns [Zero α] [Sub α] (a : PlaneArray α) : PlaneArray α :=
  ⟨a.ny, a.nx, fun j i => (if i + 1 < a.nx then a.get j (i + 1) else 0) - a.get j i⟩

/-- `np.diff(a, axis=1, prepend=0)` -/
def diffColumnsBefore [Zero α] [Sub α] (a : PlaneArray α) : PlaneArray α :=
  ⟨a.ny, a.nx, fun j i => a.get j i - if 0 < i then a.get j (i - 1) else 0⟩

/-- `np.roll(a, -1, axis=1)` -/
def rollColumns (a : PlaneArray α) : PlaneArray α := ⟨a.ny, a.nx, fun j i => a.get j (if i + 1 < a.nx then i + 1 else 0)⟩

/-- `a[w] = a[w + (0, 1)]` for the indices `w` that satisfy `c`. -/
def copyFromRight (a : PlaneArray α) (c : ℤ → ℤ → Prop) [DecidableRel c] : PlaneArray α :=
  ⟨a.ny, a.nx, fun j i => if c j i then a.get j (i + 1) else a.get j i⟩

/-! ## Rows -/

def initRows (a : PlaneArray α) : PlaneArray α := ⟨a.ny - 1, a.nx, a.get⟩

def tailRows (a : PlaneArray α) : PlaneArray α := ⟨a.ny - 1, a.nx, fun j i => a.get (j + 1) i⟩

def firstRow (a : PlaneArray α) : PlaneArray α := ⟨1, a.nx, fun _ i => a.get 0 i⟩

def lastRow (a : PlaneArray α) : PlaneArray α := ⟨1, a.nx, fun _ i => a.get (a.ny - 1) i⟩

def vstack (a b : PlaneArray α) : PlaneArray α :=
  ⟨a.ny + b.ny, a.nx, fun j i => if j < a.ny then a.get j i else b.get (j - a.ny) i⟩

def padBottom [Zero α] (a : PlaneArray α) : PlaneArray α := ⟨a.ny + 1, a.nx, fun j i => if j < a.ny then a.get j i else 0⟩

/-- `np.diff(a, axis=0, append=0)` -/
def diffRows [Zero α] [Sub α] (a : PlaneArray α) : PlaneArray α :=
  ⟨a.ny, a.nx, fun j i => (if j + 1 < a.ny then a.get (j + 1) i else 0) - a.get j i⟩

/-- `np.diff(a, axis=0, prepend=0)` -/
def diffRowsBefore [Zero α] [Sub α] (a : PlaneArray α) : PlaneArray α :=
  ⟨a.ny, a.nx, fun j i => a.get j i - if 0 < j then a.get (j - 1) i else 0⟩

/-- `np.roll(a, -1, axis=0)` -/
def rollRows (a : PlaneArray α) : PlaneArray α := ⟨a.ny, a.nx, fun j i => a.get (if j + 1 < a.ny then j + 1 else 0) i⟩

/-- `a[w] = a[w + (1, 0)]` for the indices `w` that satisfy `c`. -/
def copyFromBelow (a : PlaneArray α) (c : ℤ → ℤ → Prop) [DecidableRel c] : PlaneArray α :=
  ⟨a.ny, a.nx, fun j i => if c j i then a.get (j + 1) i else a.get j i⟩

end PlaneArray
