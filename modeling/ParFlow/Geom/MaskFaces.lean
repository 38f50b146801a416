import ParFlow.Geom.MaskFiles

/-! The triangles of `pfmask-to-pfsol` are two for each exposed face, with the label that the builder chose. -/

namespace ParFlow.Mask

open IntLoop TextScan TextStream ByteFile Pfb

/-! ## Exposed faces -/

def MaskName.all : List MaskName := [.top, .bottom, .left, .right, .front, .back]

theorem MaskName.mem_all (side : MaskName) : side ∈ MaskName.all := by cases side <;> decide

/-- The cell behind a side, as column and row. -/
def MaskName.offset : MaskName → ℤ × ℤ
  | .top => (0, 0)
  | .bottom => (0, 0)
  | .left => (-1, 0)
  | .right => (1, 0)
  | .front => (0, -1)
  | .back => (0, 1)

namespace SolidFileBuilder

variable {α : Type} [Zero α] [DecidableEq α] (b : SolidFileBuilder α)

/-- The cell in column `i` and row `j` is in the array and masked. -/
def Masked (i j : ℤ) : Prop := ((0 ≤ i ∧ i < b.iSize) ∧ 0 ≤ j ∧ j < b.jSize) ∧ b.maskArray j i ≠ 0

instance (i j : ℤ) : Decidable (b.Masked i j) := inferInstanceAs (Decidable (_ ∧ _))

/-- The top or the bottom of a masked cell, or a side to a cell that is not masked or outside. -/
def Exposed (i j : ℤ) (side : MaskName) : Prop :=
  b.Masked i j ∧ (side = .top ∨ side = .bottom ∨ ¬ b.Masked (i + side.offset.1) (j + side.offset.2))

instance (i j : ℤ) (side : MaskName) : Decidable (b.Exposed i j side) := inferInstanceAs (Decidable (_ ∧ _))

def patchIds : MaskName → Option (ℤ → ℤ → ℤ)
  | .top => b.patchIdsTop
  | .bottom => b.patchIdsBottom
  | _ => b.patchIdsSide

def defaultId : MaskName → ℤ
  | .top => b.topId
  | .bottom => b.bottomId
  | _ => b.sideId

/-- The label that the builder chooses for a face. -/
def label (i j : ℤ) (side : MaskName) : ℤ := patchLabel (b.patchIds side) (b.defaultId side) j i

/-- The ids are positive, the entries of the arrays not negative, and all fit `np.int16`. -/
structure ValidIds : Prop where
  defaults : ∀ side, 1 ≤ b.defaultId side ∧ b.defaultId side ≤ 32767
  entries : ∀ side, ∀ ids ∈ b.patchIds side, ∀ j i : ℤ, (0 ≤ j ∧ j < b.jSize) → (0 ≤ i ∧ i < b.iSize) →
    0 ≤ ids j i ∧ ids j i ≤ 32767

/-- The exposed faces, in the order of the cells and of the masks. -/
def exposedFaces : List (ℤ × ℤ × MaskName) :=
  (upto 0 b.jSize).flatMap fun j => (upto 0 b.iSize).flatMap fun i =>
    (MaskName.all.filter fun side => b.Exposed i j side).map fun side => (i, j, side)

section Labels

variable {b} {i j : ℤ} {side : MaskName}

theorem mem_exposedFaces : (i, j, side) ∈ b.exposedFaces ↔ b.Exposed i j side := by
  unfold exposedFaces
  simp only [List.mem_flatMap, List.mem_map, List.mem_filter, mem_upto, decide_eq_true_iff, Prod.mk.injEq]
  constructor
  · rintro ⟨_, -, _, -, _, ⟨-, h⟩, rfl, rfl, rfl⟩
    exact h
  · intro h
    obtain ⟨hi, hj⟩ := h.1.1
    exact ⟨j, hj, i, hi, side, ⟨side.mem_all, h⟩, rfl, rfl, rfl⟩

theorem exposedFaces_nodup (b : SolidFileBuilder α) : b.exposedFaces.Nodup := by
  have hall : MaskName.all.Nodup := by decide
  unfold exposedFaces
  refine List.nodup_flatMap.mpr ⟨fun j _ => List.nodup_flatMap.mpr ⟨fun i _ => ?_, ?_⟩, ?_⟩
  · apply (hall.filter _).map
    intro s t h
    exact (Prod.mk.inj (Prod.mk.inj h).2).2
  · apply (upto_nodup 0 b.iSize).imp
    intro i i' hne
    rw [Function.onFun, List.disjoint_left]
    intro f hf hf'
    obtain ⟨s, -, rfl⟩ := List.mem_map.mp hf
    obtain ⟨t, -, h⟩ := List.mem_map.mp hf'
    exact hne (Prod.mk.inj h).1.symm
  · apply (upto_nodup 0 b.jSize).imp
    intro j j' hne
    rw [Function.onFun, List.disjoint_left]
    intro f hf hf'
    obtain ⟨i, -, hf⟩ := List.mem_flatMap.mp hf
    obtain ⟨i', -, hf'⟩ := List.mem_flatMap.mp hf'
    obtain ⟨s, -, rfl⟩ := List.mem_map.mp hf
    obtain ⟨t, -, h⟩ := List.mem_map.mp hf'
    exact hne (Prod.mk.inj (Prod.mk.inj h).2).1.symm

omit [Zero α] [DecidableEq α] in
/-- A chosen label is not zero and fits the arrays. -/
theorem ValidIds.label_bounds (h : b.ValidIds) (hj : 0 ≤ j ∧ j < b.jSize) (hi : 0 ≤ i ∧ i < b.iSize) (side : MaskName) :
    1 ≤ b.label i j side ∧ b.label i j side ≤ 32767 := by
  have hdefault := h.defaults side
  unfold label patchLabel
  cases hids : b.patchIds side with
  | none => exact hdefault
  | some ids =>
    have hentry := h.entries side ids hids j i hj hi
    dsimp only
    split_ifs with hzero
    · omega
    · exact hdefault

theorem int16_of_bounds {v : ℤ} (h : 1 ≤ v ∧ v ≤ 32767) : int16 v = v := by
  unfold int16 Int.bmod
  dsimp only
  split_ifs <;> omega

/-- A side mask has the label exactly where the side is exposed. -/
theorem sideMask_eq {edge : Bool} {dj di : ℤ} (h : b.ValidIds) (hj : 0 ≤ j ∧ j < b.jSize) (hi : 0 ≤ i ∧ i < b.iSize)
    (hside : b.patchIds side = b.patchIdsSide ∧ b.defaultId side = b.sideId)
    (hne : side ≠ .top ∧ side ≠ .bottom) (hoffset : side.offset = (di, dj))
    (hedge : edge = true ↔ ¬ ((0 ≤ i + di ∧ i + di < b.iSize) ∧ 0 ≤ j + dj ∧ j + dj < b.jSize)) :
    b.sideMask edge dj di j i = if b.Exposed i j side then b.label i j side else 0 := by
  have hlabel : b.label i j side = patchLabel b.patchIdsSide b.sideId j i := by
    unfold label
    rw [hside.1, hside.2]
  have hopen : (edge = true ∨ b.maskArray (j + dj) (i + di) = 0) ↔ ¬ b.Masked (i + side.offset.1) (j + side.offset.2) := by
    unfold Masked
    rw [hoffset, not_and_or, not_not, hedge]
  unfold sideMask
  rw [← hlabel, int16_of_bounds (h.label_bounds hj hi side)]
  by_cases hmask : b.maskArray j i ≠ 0
  · rw [if_pos hmask]
    by_cases hcut : edge = true ∨ b.maskArray (j + dj) (i + di) = 0
    · rw [if_pos hcut, if_pos ⟨⟨⟨hi, hj⟩, hmask⟩, Or.inr (Or.inr (hopen.mp hcut))⟩]
    · rw [if_neg hcut, if_neg]
      rintro ⟨-, htop | hbottom | hfree⟩
      · exact hne.1 htop
      · exact hne.2 hbottom
      · exact hcut (hopen.mpr hfree)
  · rw [if_neg hmask, if_neg fun h => hmask h.1.2]

theorem mask_eq (h : b.ValidIds) (hj : 0 ≤ j ∧ j < b.jSize) (hi : 0 ≤ i ∧ i < b.iSize) (side : MaskName) :
    b.mask side j i = if b.Exposed i j side then b.label i j side else 0 := by
  have hlevel : ∀ side, side = .top ∨ side = .bottom →
      (if b.maskArray j i ≠ 0 then int16 (patchLabel (b.patchIds side) (b.defaultId side) j i) else 0) =
        if b.Exposed i j side then b.label i j side else 0 := by
    intro side hside
    have hiff : b.Exposed i j side ↔ b.maskArray j i ≠ 0 := by
      constructor
      · exact fun h => h.1.2
      · exact fun hmask => ⟨⟨⟨hi, hj⟩, hmask⟩, by tauto⟩
    simp only [hiff]
    rw [← int16_of_bounds (h.label_bounds hj hi side)]
    rfl
  cases side with
  | top => exact hlevel .top (Or.inl rfl)
  | bottom => exact hlevel .bottom (Or.inr rfl)
  | left => exact sideMask_eq h hj hi ⟨rfl, rfl⟩ ⟨by decide, by decide⟩ rfl (by rw [decide_eq_true_iff]; omega)
  | right => exact sideMask_eq h hj hi ⟨rfl, rfl⟩ ⟨by decide, by decide⟩ rfl (by rw [decide_eq_true_iff]; omega)
  | front => exact sideMask_eq h hj hi ⟨rfl, rfl⟩ ⟨by decide, by decide⟩ rfl (by rw [decide_eq_true_iff]; omega)
  | back => exact sideMask_eq h hj hi ⟨rfl, rfl⟩ ⟨by decide, by decide⟩ rfl (by rw [decide_eq_true_iff]; omega)

end Labels

end SolidFileBuilder

/-! ## Triangles and faces -/

section Geometry

variable {nx ny i j : ℤ} {side : MaskName} {p q : ℤ × ℤ × ℤ}

def vertexNumber (nx ny : ℤ) (p : ℤ × ℤ × ℤ) : ℤ := vertexIndex nx ny p.1 p.2.1 p.2.2

/-- The points with a number. -/
def InGrid (nx ny : ℤ) (p : ℤ × ℤ × ℤ) : Prop := (0 ≤ p.1 ∧ p.1 ≤ nx) ∧ 0 ≤ p.2.1 ∧ p.2.1 ≤ ny

theorem vertexNumber_injective (hp : InGrid nx ny p) (hq : InGrid nx ny q) (h : vertexNumber nx ny p = vertexNumber nx ny q) :
    p = q := by
  have hsplit : ∀ p : ℤ × ℤ × ℤ, vertexNumber nx ny p = p.1 + ((p.2.1 + p.2.2 * (ny + 1)) * (nx + 1)) := by
    intro p
    unfold vertexNumber vertexIndex
    ring
  -- the column is the remainder, and the row that of the quotient
  have hdigits : ∀ p, InGrid nx ny p → vertexNumber nx ny p % (nx + 1) = p.1 ∧
      vertexNumber nx ny p / (nx + 1) % (ny + 1) = p.2.1 ∧ vertexNumber nx ny p / (nx + 1) / (ny + 1) = p.2.2 := by
    rintro ⟨x, y, z⟩ ⟨hx, hy⟩
    dsimp only at hx hy
    have hquot : vertexNumber nx ny (x, y, z) / (nx + 1) = y + z * (ny + 1) := by
      rw [hsplit, Int.add_mul_ediv_right _ _ (by omega), Int.ediv_eq_zero_of_lt hx.1 (by omega), zero_add]
    refine ⟨?_, ?_, ?_⟩
    · rw [hsplit, Int.add_mul_emod_self_right, Int.emod_eq_of_lt hx.1 (by omega)]
    · rw [hquot, Int.add_mul_emod_self_right, Int.emod_eq_of_lt hy.1 (by omega)]
    · rw [hquot, Int.add_mul_ediv_right _ _ (by omega), Int.ediv_eq_zero_of_lt hy.1 (by omega), zero_add]
  obtain ⟨hx, hy, hz⟩ := hdigits p hp
  obtain ⟨hx', hy', hz'⟩ := hdigits q hq
  rw [h] at hx hy hz
  exact Prod.ext (hx.symm.trans hx') (Prod.ext (hy.symm.trans hy') (hz.symm.trans hz'))

/-- The corners of a cell that lie on one of its sides. -/
def OnFace (i j : ℤ) (side : MaskName) (p : ℤ × ℤ × ℤ) : Prop :=
  (p.1 = i ∨ p.1 = i + 1) ∧ (p.2.1 = j ∨ p.2.1 = j + 1) ∧ (p.2.2 = 0 ∨ p.2.2 = 1) ∧
    match side with
    | .top => p.2.2 = 1
    | .bottom => p.2.2 = 0
    | .left => p.1 = i
    | .right => p.1 = i + 1
    | .front => p.2.1 = j
    | .back => p.2.1 = j + 1

/-- The points differ in two coordinates at least. -/
def Opposite (p q : ℤ × ℤ × ℤ) : Prop :=
  (p.1 ≠ q.1 ∧ p.2.1 ≠ q.2.1) ∨ (p.1 ≠ q.1 ∧ p.2.2 ≠ q.2.2) ∨ (p.2.1 ≠ q.2.1 ∧ p.2.2 ≠ q.2.2)

def corners (t : ℤ × ℤ × ℤ) : Finset ℤ := {t.1, t.2.1, t.2.2}

/-- The two triangles share a diagonal of the face, and each has one of the other two corners. -/
def SplitsFace (nx ny i j : ℤ) (side : MaskName) (t : (ℤ × ℤ × ℤ) × (ℤ × ℤ × ℤ)) : Prop :=
  ∃ a b c d, (∀ p, OnFace i j side p ↔ p = a ∨ p = b ∨ p = c ∨ p = d) ∧ Opposite a c ∧
    [vertexNumber nx ny a, vertexNumber nx ny b, vertexNumber nx ny c, vertexNumber nx ny d].Nodup ∧
    corners t.1 = {vertexNumber nx ny a, vertexNumber nx ny b, vertexNumber nx ny c} ∧
    corners t.2 = {vertexNumber nx ny a, vertexNumber nx ny c, vertexNumber nx ny d}

/-- The ends of the diagonal, and the other two corners. -/
def diagonal (i j : ℤ) : MaskName → ((ℤ × ℤ × ℤ) × (ℤ × ℤ × ℤ)) × ((ℤ × ℤ × ℤ) × (ℤ × ℤ × ℤ))
  | .top => (((i, j, 1), (i + 1, j + 1, 1)), ((i + 1, j, 1), (i, j + 1, 1)))
  | .bottom => (((i, j, 0), (i + 1, j + 1, 0)), ((i + 1, j, 0), (i, j + 1, 0)))
  | .left => (((i, j, 1), (i, j + 1, 0)), ((i, j, 0), (i, j + 1, 1)))
  | .right => (((i + 1, j, 1), (i + 1, j + 1, 0)), ((i + 1, j, 0), (i + 1, j + 1, 1)))
  | .front => (((i, j, 0), (i + 1, j, 1)), ((i + 1, j, 0), (i, j, 1)))
  | .back => (((i + 1, j + 1, 1), (i, j + 1, 0)), ((i + 1, j + 1, 0), (i, j + 1, 1)))

theorem onFace_iff : OnFace i j side p ↔ p = (diagonal i j side).1.1 ∨ p = (diagonal i j side).2.1 ∨
    p = (diagonal i j side).1.2 ∨ p = (diagonal i j side).2.2 := by
  obtain ⟨x, y, z⟩ := p
  cases side <;> simp only [OnFace, diagonal, Prod.mk.injEq] <;> omega

theorem faceTriangles_splitsFace (hi : 0 ≤ i ∧ i < nx) (hj : 0 ≤ j ∧ j < ny) (side : MaskName) :
    SplitsFace nx ny i j side (faceTriangles nx ny i j side) := by
  refine ⟨_, _, _, _, fun p => onFace_iff, ?_, ?_, ?_, ?_⟩
  · cases side <;> simp [Opposite, diagonal]
  · have hpoints : [(diagonal i j side).1.1, (diagonal i j side).2.1, (diagonal i j side).1.2,
        (diagonal i j side).2.2].Nodup := by
      cases side <;> simp [diagonal]
    have hgrid : ∀ p ∈ [(diagonal i j side).1.1, (diagonal i j side).2.1, (diagonal i j side).1.2,
        (diagonal i j side).2.2], InGrid nx ny p := by
      intro p hp
      have hon : OnFace i j side p := onFace_iff.mpr (by simpa using hp)
      obtain ⟨hx, hy, -⟩ := hon
      unfold InGrid
      omega
    have hmap := hpoints.map_on fun p hp q hq h => vertexNumber_injective (hgrid p hp) (hgrid q hq) h
    exact hmap
  · cases side <;> ext n <;> simp only [corners, faceTriangles, diagonal, vertexNumber, Finset.mem_insert,
      Finset.mem_singleton] <;> tauto
  · cases side <;> ext n <;> simp only [corners, faceTriangles, diagonal, vertexNumber, Finset.mem_insert,
      Finset.mem_singleton] <;> tauto

end Geometry

/-! ## The program -/

theorem toInt_intCast (n : ℤ) : toInt n = n := by
  unfold toInt
  rw [Int.ceil_intCast, Int.floor_intCast, ite_self]

/-- The indicators of a mask are its values. -/
theorem indicators_get {nx ny i j : ℤ} {databox : Databox ℚ} (hnx : databox.nx = nx) (hj : 0 ≤ j ∧ j < ny)
    (hi : 0 ≤ i ∧ i < nx) :
    indicators nx ny databox (triangleIndex nx ny i j 0) = toInt (databox.coeffs (databox.coeff i j 0)) := by
  have hindex : ∀ i j, databox.coeff i j 0 = triangleIndex nx ny i j 0 := by
    intro i j
    unfold Databox.coeff triangleIndex
    rw [hnx]
    ring
  have hflat : indicators nx ny databox = ((upto 0 ny).flatMap fun j => (upto 0 nx).map fun i =>
      triangleIndex nx ny i j 0).foldl (fun ind t => Function.update ind t (toInt (databox.coeffs t))) fun _ => 0 := by
    unfold indicators
    simp only [List.foldl_flatMap, List.foldl_map, hindex]
  rw [hflat, hindex]
  apply foldl_update _ fun t => toInt (databox.coeffs t)
  simp only [List.mem_flatMap, List.mem_map, mem_upto]
  exact ⟨j, hj, i, hi, rfl⟩

namespace SolidFileBuilder

variable {α : Type} [Zero α] [DecidableEq α] {b : SolidFileBuilder α} {ind : MaskName → ℤ → ℤ} {i j : ℤ}

/-- The indicators are the labels of the exposed faces. -/
def HasIndicators (b : SolidFileBuilder α) (ind : MaskName → ℤ → ℤ) : Prop :=
  ∀ side, ∀ i j : ℤ, (0 ≤ j ∧ j < b.jSize) → (0 ≤ i ∧ i < b.iSize) →
    ind side (triangleIndex b.iSize b.jSize i j 0) = if b.Exposed i j side then b.label i j side else 0

/-- The two triangles of a face with its label. -/
def labelledTriangles (b : SolidFileBuilder α) (f : ℤ × ℤ × MaskName) : List Triangle :=
  patchTriangles b.iSize b.jSize f.1 f.2.1 f.2.2 (b.label f.1 f.2.1 f.2.2)

/-- The top mask tells the masked cells. -/
theorem HasIndicators.top_eq_zero_iff (h : b.HasIndicators ind) (hids : b.ValidIds) (hj : 0 ≤ j ∧ j < b.jSize)
    (hi : 0 ≤ i ∧ i < b.iSize) : ind .top (triangleIndex b.iSize b.jSize i j 0) = 0 ↔ ¬ b.Masked i j := by
  have hlabel := hids.label_bounds hj hi .top
  rw [h .top i j hj hi]
  split_ifs with hexposed
  · constructor
    · intro hzero
      omega
    · exact fun hmask => absurd hexposed.1 hmask
  · exact iff_of_true rfl fun hmask => hexposed ⟨hmask, Or.inl rfl⟩

/-- The test before a side of a masked cell: its edge of the array, or the cell behind it. -/
theorem HasIndicators.side_iff (h : b.HasIndicators ind) (hids : b.ValidIds) (hmask : b.Masked i j) (side : MaskName)
    (hne : side ≠ .top ∧ side ≠ .bottom) {i' j' : ℤ} (hi' : i' = i + side.offset.1) (hj' : j' = j + side.offset.2)
    {edge : Prop} (hedge : edge ↔ ¬ ((0 ≤ i' ∧ i' < b.iSize) ∧ 0 ≤ j' ∧ j' < b.jSize)) :
    (edge ∨ ind .top (triangleIndex b.iSize b.jSize i' j' 0) = 0) ↔ b.Exposed i j side := by
  have hexposed : b.Exposed i j side ↔ ¬ b.Masked i' j' := by
    unfold Exposed
    rw [← hi', ← hj']
    constructor
    · rintro ⟨-, htop | hbottom | hfree⟩
      · exact absurd htop hne.1
      · exact absurd hbottom hne.2
      · exact hfree
    · exact fun hfree => ⟨hmask, Or.inr (Or.inr hfree)⟩
  rw [hexposed]
  by_cases hin : (0 ≤ i' ∧ i' < b.iSize) ∧ 0 ≤ j' ∧ j' < b.jSize
  · rw [h.top_eq_zero_iff hids hin.2 hin.1]
    exact or_iff_right fun he => hedge.mp he hin
  · exact iff_of_true (Or.inl (hedge.mpr hin)) fun hm => hin hm.1

/-- One cell makes the triangles of its exposed faces. -/
theorem HasIndicators.cellTriangles_eq (h : b.HasIndicators ind) (hids : b.ValidIds) (hj : 0 ≤ j ∧ j < b.jSize)
    (hi : 0 ≤ i ∧ i < b.iSize) : cellTriangles b.iSize b.jSize ind i j =
      ((MaskName.all.filter fun side => b.Exposed i j side).map fun side => (i, j, side)).flatMap b.labelledTriangles := by
  have hsum : ((MaskName.all.filter fun side => b.Exposed i j side).map fun side => (i, j, side)).flatMap
      b.labelledTriangles = MaskName.all.flatMap fun side =>
        if b.Exposed i j side then patchTriangles b.iSize b.jSize i j side (b.label i j side) else [] := by
    rw [List.flatMap_map]
    induction MaskName.all with
    | nil => rfl
    | cons side rest ih =>
      rw [List.filter_cons, List.flatMap_cons, ← ih]
      by_cases hexposed : b.Exposed i j side
      · rw [if_pos (decide_eq_true hexposed), if_pos hexposed]
        rfl
      · rw [if_neg (by rwa [decide_eq_true_iff]), if_neg hexposed, List.nil_append]
  rw [hsum]
  unfold cellTriangles
  dsimp only
  by_cases hmask : b.Masked i j
  · have hlevel : b.Exposed i j .top ∧ b.Exposed i j .bottom := ⟨⟨hmask, Or.inl rfl⟩, hmask, Or.inr (Or.inl rfl)⟩
    have hside : ∀ side, b.Exposed i j side → ind side (triangleIndex b.iSize b.jSize i j 0) = b.label i j side := by
      intro side hexposed
      rw [h side i j hj hi, if_pos hexposed]
    have hleft : (i = 0 ∨ ind .top (triangleIndex b.iSize b.jSize (i - 1) j 0) = 0) ↔ b.Exposed i j .left :=
      h.side_iff hids hmask .left ⟨by decide, by decide⟩ (sub_eq_add_neg i 1) (add_zero j).symm (by omega)
    have hright : (i = b.iSize - 1 ∨ ind .top (triangleIndex b.iSize b.jSize (i + 1) j 0) = 0) ↔ b.Exposed i j .right :=
      h.side_iff hids hmask .right ⟨by decide, by decide⟩ (show i + 1 = _ from rfl) (add_zero j).symm (by omega)
    have hfront : (j = 0 ∨ ind .top (triangleIndex b.iSize b.jSize i (j - 1) 0) = 0) ↔ b.Exposed i j .front :=
      h.side_iff hids hmask .front ⟨by decide, by decide⟩ (add_zero i).symm (sub_eq_add_neg j 1) (by omega)
    have hback : (j = b.jSize - 1 ∨ ind .top (triangleIndex b.iSize b.jSize i (j + 1) 0) = 0) ↔ b.Exposed i j .back :=
      h.side_iff hids hmask .back ⟨by decide, by decide⟩ (add_zero i).symm (show j + 1 = _ from rfl) (by omega)
    rw [if_pos (mt (h.top_eq_zero_iff hids hj hi).mp (not_not.mpr hmask)), hside .top hlevel.1, hside .bottom hlevel.2]
    -- the four tests, and with each the label
    have hif : ∀ side, ∀ test : Prop, ∀ [Decidable test], (test ↔ b.Exposed i j side) →
        (if test then patchTriangles b.iSize b.jSize i j side (ind side (triangleIndex b.iSize b.jSize i j 0)) else []) =
          if b.Exposed i j side then patchTriangles b.iSize b.jSize i j side (b.label i j side) else [] := by
      intro side test _ htest
      by_cases hexposed : b.Exposed i j side
      · rw [if_pos (htest.mpr hexposed), if_pos hexposed, hside side hexposed]
      · rw [if_neg (mt htest.mp hexposed), if_neg hexposed]
    rw [hif .left _ hleft, hif .right _ hright, hif .front _ hfront, hif .back _ hback]
    unfold MaskName.all
    simp only [List.flatMap_cons, List.flatMap_nil, List.append_nil, if_pos hlevel.1, if_pos hlevel.2, List.append_assoc]
  · rw [if_neg (not_not.mpr ((h.top_eq_zero_iff hids hj hi).mpr hmask))]
    have hnone : ∀ side, ¬ b.Exposed i j side := fun side hexposed => hmask hexposed.1
    simp only [hnone, if_false]
    rfl

theorem HasIndicators.buildTriangles_eq (h : b.HasIndicators ind) (hids : b.ValidIds) :
    buildTriangles b.iSize b.jSize ind = b.exposedFaces.flatMap b.labelledTriangles := by
  unfold buildTriangles exposedFaces
  rw [List.flatMap_assoc]
  apply List.flatMap_congr
  intro j hj
  rw [List.flatMap_assoc]
  apply List.flatMap_congr
  intro i hi
  rw [mem_upto] at hj hi
  exact h.cellTriangles_eq hids hj hi

/-- The indicators that the program reads from the file of a mask. -/
theorem indicators_of_file (hids : b.ValidIds) (settings : AscSettings) (side : MaskName) :
    ∃ v rest, (readASCMask 0).run (utf8 (writePatchMatrixAsAsc (b.mask side) b.jSize b.iSize settings)) = some (v, rest) ∧
      HasSizes b.jSize b.iSize v ∧ ∀ i j : ℤ, (0 ≤ j ∧ j < b.jSize) → (0 ≤ i ∧ i < b.iSize) →
        indicators b.iSize b.jSize v (triangleIndex b.iSize b.jSize i j 0) =
          if b.Exposed i j side then b.label i j side else 0 := by
  have hpos : ∀ j i : ℤ, (0 ≤ j ∧ j < b.jSize) → (0 ≤ i ∧ i < b.iSize) → 0 ≤ b.mask side j i := by
    intro j i hj hi
    have hlabel := hids.label_bounds hj hi side
    rw [mask_eq hids hj hi]
    split_ifs <;> omega
  obtain ⟨v, rest, hrun, hsizes, hget⟩ := readASCMask_run settings 0 hpos
  refine ⟨v, rest, hrun, hsizes, ?_⟩
  intro i j hj hi
  rw [indicators_get hsizes.1 hj hi, hget j i hj hi, toInt_intCast, mask_eq hids hj hi]

end SolidFileBuilder

/-- The six files of the builder. -/
def maskFiles {α : Type} [Zero α] [DecidableEq α] (b : SolidFileBuilder α) (settings : AscSettings) (name : MaskName) :
    List UInt8 := utf8 (writePatchMatrixAsAsc (b.mask name) b.jSize b.iSize settings)

/-- Two triangles for each exposed face and no others, with the label of the face, which is not zero. -/
structure TrianglesOfFaces {α : Type} [Zero α] [DecidableEq α] (b : SolidFileBuilder α) (faces : List (ℤ × ℤ × MaskName))
    (triangles : List Triangle) : Prop where
  nodup : faces.Nodup
  mem_iff : ∀ i j side, (i, j, side) ∈ faces ↔ b.Exposed i j side
  triangles_eq : triangles = faces.flatMap fun f =>
    patchTriangles b.iSize b.jSize f.1 f.2.1 f.2.2 (b.label f.1 f.2.1 f.2.2)
  label_ne_zero : ∀ i j side, (i, j, side) ∈ faces → b.label i j side ≠ 0
  splitsFace : ∀ i j side, (i, j, side) ∈ faces →
    SplitsFace b.iSize b.jSize i j side (faceTriangles b.iSize b.jSize i j side)

theorem masks_agree {α : Type} [Zero α] [DecidableEq α] (b : SolidFileBuilder α) (settings : AscSettings)
    (hids : b.ValidIds) : ∃ triangles faces, maskTriangles (maskFiles b settings) = some triangles ∧
      TrianglesOfFaces b faces triangles := by
  choose v rest hrun hsizes hget using b.indicators_of_file hids settings
  have hread : ∀ name, ((readASCMask 0).run (maskFiles b settings name)).map Prod.fst = some (v name) := by
    intro name
    unfold maskFiles
    rw [hrun name]
    rfl
  refine ⟨_, b.exposedFaces, ?_, b.exposedFaces_nodup, fun i j side => SolidFileBuilder.mem_exposedFaces, rfl, ?_, ?_⟩
  · have hbuild : buildTriangles (v .top).nx (v .top).ny (fun name => indicators (v .top).nx (v .top).ny (v name)) =
        b.exposedFaces.flatMap b.labelledTriangles := by
      rw [(hsizes .top).1, (hsizes .top).2]
      exact SolidFileBuilder.HasIndicators.buildTriangles_eq (fun side i j hj hi => hget side i j hj hi) hids
    have hboxes : MaskName.select (v .top) (v .bottom) (v .left) (v .right) (v .front) (v .back) = v := by
      funext name
      cases name <;> rfl
    unfold maskTriangles
    dsimp only
    rw [hread .top, hread .bottom, hread .left, hread .right, hread .front, hread .back]
    show some (buildTriangles (v .top).nx (v .top).ny fun name => indicators (v .top).nx (v .top).ny
      (MaskName.select (v .top) (v .bottom) (v .left) (v .right) (v .front) (v .back) name)) = _
    rw [hboxes, hbuild]
    rfl
  · intro i j side hmem
    obtain ⟨hi, hj⟩ := (SolidFileBuilder.mem_exposedFaces.mp hmem).1.1
    have hlabel := hids.label_bounds hj hi side
    omega
  · intro i j side hmem
    obtain ⟨hi, hj⟩ := (SolidFileBuilder.mem_exposedFaces.mp hmem).1.1
    exact faceTriangles_splitsFace hi hj side

/-- Two rows of three cells without the last cell of the first row, and labels of their own for the sides. -/
def fiveCells : SolidFileBuilder ℤ where
  jSize := 2
  iSize := 3
  maskArray j i := if j = 0 ∧ i = 2 then 0 else 1
  patchIdsTop := none
  patchIdsBottom := none
  patchIdsSide := some fun j i => 3 * j + i
  topId := 1
  bottomId := 2
  sideId := 3

theorem fiveCells_validIds : fiveCells.ValidIds where
  defaults side := by cases side <;> decide
  entries side ids hids j i hj hi := by
    have hsize : fiveCells.jSize = 2 ∧ fiveCells.iSize = 3 := ⟨rfl, rfl⟩
    have hside : ids = fun j i => 3 * j + i := by
      cases side with
      | top => exact absurd hids.symm (Option.some_ne_none _)
      | bottom => exact absurd hids.symm (Option.some_ne_none _)
      | _ => exact (Option.some.inj hids).symm
    rw [hsize.1] at hj
    rw [hsize.2] at hi
    subst hside
    dsimp only
    omega

theorem fiveCells_masks_agree : ∃ triangles faces,
    maskTriangles (maskFiles fiveCells ⟨AscNumber.ofNat 0, AscNumber.ofNat 0, AscNumber.ofNat 0⟩) = some triangles ∧
      TrianglesOfFaces fiveCells faces triangles :=
  masks_agree fiveCells ⟨AscNumber.ofNat 0, AscNumber.ofNat 0, AscNumber.ofNat 0⟩ fiveCells_validIds

end ParFlow.Mask
