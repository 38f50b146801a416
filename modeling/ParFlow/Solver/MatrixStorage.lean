import ParFlow.Solver.MatrixDefs
import ParFlow.Comm.VectorCells

/-! Symmetric storage. The search for the partner of an element below the diagonal does not compare the third
component, so that it finds the right one just when that comes last among the elements with its first two
components. -/

namespace ParFlow

open PointLoop Strided Subregion

/-! ## Sides of the diagonal -/

theorem addSign_eq (n x w : ℤ) : addSign n x w = n + x.sign * w := by
  unfold addSign
  rcases lt_trichotomy x 0 with hx | rfl | hx
  · rw [if_pos hx.ne, if_pos hx, Int.sign_eq_neg_one_of_neg hx]
  · simp
  · rw [if_pos hx.ne', if_neg (not_lt.mpr hx.le), Int.sign_eq_one_of_pos hx]

theorem triangleSide_eq (v : Cell) : triangleSide v = v.2.2.sign * 4 + v.2.1.sign * 2 + v.1.sign := by
  unfold triangleSide
  rw [addSign_eq, addSign_eq, addSign_eq]
  ring

theorem triangleSide_neg (v : Cell) : triangleSide (-v) = -triangleSide v := by
  rw [triangleSide_eq, triangleSide_eq, Prod.snd_neg, Prod.snd_neg, Prod.fst_neg, Prod.fst_neg, Int.sign_neg, Int.sign_neg,
    Int.sign_neg]
  ring

theorem triangleSide_eq_zero {v : Cell} (h : triangleSide v = 0) : v = 0 := by
  rw [triangleSide_eq] at h
  have hbound : ∀ x : ℤ, -1 ≤ x.sign ∧ x.sign ≤ 1 := by
    intro x
    rcases lt_trichotomy x 0 with hx | rfl | hx
    · simp [Int.sign_eq_neg_one_of_neg hx]
    · simp
    · simp [Int.sign_eq_one_of_pos hx]
  have hz := hbound v.2.2
  have hy := hbound v.2.1
  have hx := hbound v.1
  have hz0 : v.2.2.sign = 0 := by omega
  have hy0 : v.2.1.sign = 0 := by omega
  have hx0 : v.1.sign = 0 := by omega
  exact Prod.ext (Int.sign_eq_zero_iff_zero.mp hx0)
    (Prod.ext (Int.sign_eq_zero_iff_zero.mp hy0) (Int.sign_eq_zero_iff_zero.mp hz0))

/-! ## Elements and partners -/

/-- A stencil with its centre first, without repeated elements and closed under negation. -/
structure ClosedStencil (shape : StencilShape) : Prop where
  pos : 0 < shape.length
  centre : stencilElt shape 0 = 0
  nodup : shape.Nodup
  neg : ∀ v ∈ shape, -v ∈ shape

instance (shape : StencilShape) : Decidable (ClosedStencil shape) :=
  decidable_of_iff (0 < shape.length ∧ stencilElt shape 0 = 0 ∧ shape.Nodup ∧ ∀ v ∈ shape, -v ∈ shape)
    ⟨fun h => ⟨h.1, h.2.1, h.2.2.1, h.2.2.2⟩, fun h => ⟨h.1, h.2, h.3, h.4⟩⟩

section Stencil

variable {shape : StencilShape} {k n : ℕ}

theorem stencilElt_eq (hk : k < shape.length) : stencilElt shape k = shape[k] := by
  unfold stencilElt
  rw [List.getD_eq_getElem?_getD, List.getElem?_eq_getElem hk, Option.getD_some]

theorem stencilElt_inj (hs : ClosedStencil shape) (hk : k < shape.length) (hn : n < shape.length)
    (h : stencilElt shape k = stencilElt shape n) : k = n := by
  rw [stencilElt_eq hk, stencilElt_eq hn] at h
  exact (hs.nodup.getElem_inj_iff).mp h

theorem exists_partner (hs : ClosedStencil shape) (hk : k < shape.length) :
    ∃ n < shape.length, stencilElt shape n = -stencilElt shape k := by
  have hmem : -stencilElt shape k ∈ shape := by
    rw [stencilElt_eq hk]
    exact hs.neg _ (List.getElem_mem hk)
  obtain ⟨n, hn, he⟩ := List.mem_iff_getElem.mp hmem
  exact ⟨n, hn, (stencilElt_eq hn).trans he⟩

/-- The element lies below the diagonal. -/
def IsLower (shape : StencilShape) (k : ℕ) : Prop := triangleSide (stencilElt shape k) < 0

instance (shape : StencilShape) (k : ℕ) : Decidable (IsLower shape k) := inferInstanceAs (Decidable (_ < _))

theorem not_isLower_partner (hk : IsLower shape k) (hn : stencilElt shape n = -stencilElt shape k) : ¬ IsLower shape n := by
  unfold IsLower at hk ⊢
  rw [hn, triangleSide_neg]
  omega

theorem isLower_of_not (hs : ClosedStencil shape) (hk : k < shape.length) (hk0 : k ≠ 0) (hk' : ¬ IsLower shape k)
    (hn : stencilElt shape n = -stencilElt shape k) : IsLower shape n := by
  have hne : triangleSide (stencilElt shape k) ≠ 0 := by
    intro h0
    apply hk0
    apply stencilElt_inj hs hk hs.pos
    rw [triangleSide_eq_zero h0, hs.centre]
  unfold IsLower at hk' ⊢
  rw [hn, triangleSide_neg]
  omega

/-- The partner that is found matches, and every other match comes before it. -/
theorem symmetricCoeff_spec (hs : ClosedStencil shape) (hk : k < shape.length) (hlow : IsLower shape k) :
    symmetricCoeff shape true k < shape.length ∧
      matchesPartner (stencilElt shape (symmetricCoeff shape true k)) (stencilElt shape k) ∧
      ∀ n < shape.length, matchesPartner (stencilElt shape n) (stencilElt shape k) → n ≤ symmetricCoeff shape true k := by
  obtain ⟨n, hn, he⟩ := exists_partner hs hk
  have hmatch : matchesPartner (stencilElt shape n) (stencilElt shape k) := by
    rw [he]
    exact ⟨rfl, rfl, rfl⟩
  unfold symmetricCoeff
  rw [if_pos ⟨rfl, hlow⟩]
  exact foldl_range_last hn hmatch 0

theorem symmetricCoeff_eq_zero (hs : ClosedStencil shape) (hk : k < shape.length) :
    symmetricCoeff shape true k = 0 ↔ ¬ IsLower shape k := by
  constructor
  · intro h hlow
    obtain ⟨n, hn, he⟩ := exists_partner hs hk
    have hle := (symmetricCoeff_spec hs hk hlow).2.2 n hn (by rw [he]; exact ⟨rfl, rfl, rfl⟩)
    have hn0 : n = 0 := by omega
    rw [hn0, hs.centre, zero_eq_neg] at he
    unfold IsLower at hlow
    rw [he] at hlow
    exact absurd hlow (by decide)
  · intro hlow
    unfold symmetricCoeff
    rw [if_neg fun h => hlow h.2]

/-! ## The table -/

/-- The elements that are stored before element `k`. -/
def rank (shape : StencilShape) (k : ℕ) : ℕ := (List.range k).countP fun j => symmetricCoeff shape true j = 0

theorem rank_succ (shape : StencilShape) (k : ℕ) :
    rank shape (k + 1) = rank shape k + if symmetricCoeff shape true k = 0 then 1 else 0 := by
  unfold rank
  rw [List.range_succ, List.countP_append, List.countP_singleton]
  simp

theorem rank_lt (h : symmetricCoeff shape true k = 0) (hkn : k < n) : rank shape k < rank shape n := by
  have hmono : rank shape (k + 1) ≤ rank shape n := by
    unfold rank
    exact (List.range_sublist.mpr hkn).countP_le
  rw [rank_succ, if_pos h] at hmono
  omega

theorem rank_inj (hk : symmetricCoeff shape true k = 0) (hn : symmetricCoeff shape true n = 0) (h : rank shape k = rank shape n) :
    k = n := by
  rcases lt_trichotomy k n with hlt | heq | hlt
  · have := rank_lt hk hlt
    omega
  · exact heq
  · have := rank_lt hn hlt
    omega

theorem upperIndex_eq (shape : StencilShape) (n : ℤ) (k : ℕ) : (upperIndex shape (symmetricCoeff shape true) n).1 k =
    if k < shape.length ∧ symmetricCoeff shape true k = 0 then n * rank shape k else 0 := by
  have hrun : ∀ m, (List.range m).foldl (fun (st : (ℕ → ℤ) × ℤ) k =>
      if symmetricCoeff shape true k = 0 then (Function.update st.1 k st.2, st.2 + n) else st) (fun _ => 0, 0) =
      (fun k => if k < m ∧ symmetricCoeff shape true k = 0 then n * rank shape k else 0, n * rank shape m) := by
    intro m
    induction m with
    | zero => simp [rank]
    | succ m ih =>
      rw [List.range_succ, List.foldl_append, ih, List.foldl_cons, List.foldl_nil, rank_succ]
      by_cases hm : symmetricCoeff shape true m = 0
      · rw [if_pos hm, if_pos hm]
        refine Prod.ext ?_ (by push_cast; ring)
        funext k
        by_cases hkm : k = m
        · subst hkm
          simp [hm]
        · have hlt : k < m + 1 ↔ k < m := by omega
          simp only [Function.update_of_ne hkm, hlt]
      · rw [if_neg hm, if_neg hm]
        refine Prod.ext ?_ (by simp)
        funext k
        by_cases hkm : k = m
        · subst hkm
          simp [hm]
        · have hlt : k < m + 1 ↔ k < m := by omega
          simp only [hlt]
  unfold upperIndex
  rw [hrun]

variable {D : Subregion}

/-- The entry of an element before the loop over the elements below the diagonal. -/
def storedIndex (shape : StencilShape) (D : Subregion) (k : ℕ) : ℤ :=
  if k < shape.length ∧ symmetricCoeff shape true k = 0 then D.nx * D.ny * D.nz * rank shape k else 0

theorem matrixDataIndex_stored (hk : symmetricCoeff shape true k = 0) :
    matrixDataIndex shape true D k = storedIndex shape D k := by
  have hloop := foldl_range_update (c := fun k => symmetricCoeff shape true k ≠ 0)
    (fun k d => d (symmetricCoeff shape true k) + flatShift D.nx D.ny (stencilElt shape k))
    (upperIndex shape (symmetricCoeff shape true) (D.nx * D.ny * D.nz)).1 shape.length k
  rw [if_neg fun h => h.2 hk, upperIndex_eq] at hloop
  exact hloop

/-- An element below the diagonal reads the entry of its partner, which is not yet there when the partner lies
below the diagonal and comes later. -/
theorem matrixDataIndex_lower (hk : k < shape.length) (hlow : symmetricCoeff shape true k ≠ 0) :
    matrixDataIndex shape true D k = (if symmetricCoeff shape true k < k then matrixDataIndex shape true D (symmetricCoeff shape true k)
      else storedIndex shape D (symmetricCoeff shape true k)) + flatShift D.nx D.ny (stencilElt shape k) := by
  have hloop := fun m => foldl_range_update (c := fun k => symmetricCoeff shape true k ≠ 0)
    (fun k d => d (symmetricCoeff shape true k) + flatShift D.nx D.ny (stencilElt shape k))
    (upperIndex shape (symmetricCoeff shape true) (D.nx * D.ny * D.nz)).1 m
  have htable : matrixDataIndex shape true D k = _ := hloop shape.length k
  rw [if_pos ⟨hk, hlow⟩] at htable
  rw [htable, hloop k]
  congr 1
  by_cases hlt : symmetricCoeff shape true k < k
  · rw [if_pos hlt]
    have hentry : matrixDataIndex shape true D (symmetricCoeff shape true k) = _ := hloop shape.length (symmetricCoeff shape true k)
    rw [hentry]
    simp only [hlt, hlt.trans hk]
  · rw [if_neg hlt, if_neg fun h => hlt h.1, upperIndex_eq]
    rfl

/-! ## Cells of a data region -/

/-- An element that joins two cells of the region. -/
def Joins (D : Subregion) (v : Cell) : Prop := ∃ c ∈ D.points, c + v ∈ D.points

instance (D : Subregion) (v : Cell) : Decidable (Joins D v) := inferInstanceAs (Decidable (∃ c ∈ D.points, _))

theorem Joins.bounds (hD : D.UnitStride) {v : Cell} (h : Joins D v) : |v.1| < D.nx ∧ |v.2.1| < D.ny ∧ |v.2.2| < D.nz := by
  obtain ⟨c, hc, hcv⟩ := h
  rw [mem_points_iff hD, mem_cells_iff] at hc hcv
  simp only [Prod.fst_add, Prod.snd_add] at hcv
  rw [abs_lt, abs_lt, abs_lt]
  omega

theorem Joins.nonEmpty {v : Cell} (h : Joins D v) : D.NonEmpty := by
  obtain ⟨c, hc, -⟩ := h
  by_contra hne
  rw [points_eq_nil hne] at hc
  exact absurd hc List.not_mem_nil

/-- With a partner that is not the right one, the entry is wrong. -/
theorem partner_of_index (hs : ClosedStencil shape) (hD : D.UnitStride) (hk : k < shape.length) (hlow : IsLower shape k)
    (hjoins : Joins D (stencilElt shape k)) (hn : n < shape.length) (he : stencilElt shape n = -stencilElt shape k)
    (h : matrixDataIndex shape true D k = matrixDataIndex shape true D n + flatShift D.nx D.ny (stencilElt shape k)) :
    symmetricCoeff shape true k = n := by
  obtain ⟨hx, hy, hz⟩ := hjoins.nonEmpty
  have hN : 0 < D.nx * D.ny * D.nz := mul_pos (mul_pos hx hy) hz
  have hn0 : symmetricCoeff shape true n = 0 := (symmetricCoeff_eq_zero hs hn).mpr (not_isLower_partner hlow he)
  have hk0 : symmetricCoeff shape true k ≠ 0 := fun h0 => (symmetricCoeff_eq_zero hs hk).mp h0 hlow
  obtain ⟨hmlt, hmatch, hmax⟩ := symmetricCoeff_spec hs hk hlow
  have hnentry : matrixDataIndex shape true D n = D.nx * D.ny * D.nz * rank shape n := by
    rw [matrixDataIndex_stored hn0, storedIndex, if_pos ⟨hn, hn0⟩]
  rw [matrixDataIndex_lower hk hk0, hnentry, add_left_inj] at h
  by_cases hm : symmetricCoeff shape true (symmetricCoeff shape true k) = 0
  · -- the partner is stored, so that its entry tells which one it is
    have hentry : storedIndex shape D (symmetricCoeff shape true k) =
        D.nx * D.ny * D.nz * rank shape (symmetricCoeff shape true k) := if_pos ⟨hmlt, hm⟩
    rw [matrixDataIndex_stored hm, ite_self, hentry] at h
    exact rank_inj hm hn0 (by exact_mod_cast mul_left_cancel₀ hN.ne' h)
  exfalso
  by_cases hlt : symmetricCoeff shape true k < k
  · -- the partner's own partner comes after both, so that its entry is a multiple of the size
    rw [if_pos hlt, matrixDataIndex_lower hmlt hm] at h
    obtain ⟨-, -, hmax'⟩ := symmetricCoeff_spec hs hmlt (not_not.mp (mt (symmetricCoeff_eq_zero hs hmlt).mpr hm))
    have hback : matchesPartner (stencilElt shape k) (stencilElt shape (symmetricCoeff shape true k)) := by
      obtain ⟨h₁, h₂, -⟩ := hmatch
      exact ⟨by omega, by omega, by omega⟩
    have hle := hmax' k hk hback
    rw [if_neg (by omega)] at h
    have hdvd : D.nx * D.ny * D.nz ∣ flatShift D.nx D.ny (stencilElt shape (symmetricCoeff shape true k)) := by
      have hmul : D.nx * D.ny * D.nz ∣ storedIndex shape D (symmetricCoeff shape true (symmetricCoeff shape true k)) := by
        unfold storedIndex
        split_ifs
        · exact dvd_mul_right _ _
        · exact dvd_zero _
      exact (dvd_add_right hmul).mp (h ▸ dvd_mul_right _ _)
    -- then the first two components vanish, and the element matches itself
    obtain ⟨hbx, hby, -⟩ := hjoins.bounds hD
    obtain ⟨hmx, hmy, -⟩ := hmatch
    have hdx : D.nx ∣ (stencilElt shape k).1 := by
      have h₁ : D.nx ∣ flatShift D.nx D.ny (stencilElt shape (symmetricCoeff shape true k)) :=
        (Dvd.intro _ (mul_assoc _ _ _).symm).trans hdvd
      have h₂ := (dvd_add_right (dvd_mul_left D.nx _)).mp h₁
      rwa [hmx, dvd_neg] at h₂
    have hx0 := Int.eq_zero_of_abs_lt_dvd hdx hbx
    have hdy : D.ny ∣ (stencilElt shape k).2.1 := by
      unfold flatShift at hdvd
      rw [hmx, hmy, hx0, neg_zero, add_zero, mul_assoc, mul_comm D.nx] at hdvd
      have h₁ := (mul_dvd_mul_iff_right hx.ne').mp hdvd
      have h₂ : D.ny ∣ (stencilElt shape (symmetricCoeff shape true k)).2.2 * D.ny + -(stencilElt shape k).2.1 :=
        (dvd_mul_right D.ny D.nz).trans h₁
      have h₃ := (dvd_add_right (dvd_mul_left D.ny _)).mp h₂
      rwa [dvd_neg] at h₃
    have hy0 := Int.eq_zero_of_abs_lt_dvd hdy hby
    have hself : matchesPartner (stencilElt shape k) (stencilElt shape k) := ⟨by omega, by omega, by omega⟩
    have := hmax k hk hself
    omega
  · -- the partner's entry is not there yet
    rw [if_neg hlt] at h
    have hzero : storedIndex shape D (symmetricCoeff shape true k) = 0 := if_neg fun hc => hm hc.2
    rw [hzero] at h
    have hrank : rank shape 0 < rank shape n := by
      apply rank_lt
      · rw [symmetricCoeff_eq_zero hs hs.pos]
        unfold IsLower
        rw [hs.centre]
        decide
      · apply Nat.pos_of_ne_zero
        intro hn0
        rw [hn0, hs.centre, zero_eq_neg] at he
        unfold IsLower at hlow
        rw [he] at hlow
        exact absurd hlow (by decide)
    have hpos : 0 < D.nx * D.ny * D.nz * rank shape n := mul_pos hN (by exact_mod_cast (Nat.zero_le _).trans_lt hrank)
    omega

/-! ## Symmetric storage -/

/-- The place of coefficient `s` at a cell, `SubmatrixElt` without the start of the array. -/
def coeffPlace (shape : StencilShape) (D : Subregion) (s : ℕ) (c : Cell) : ℤ :=
  matrixDataIndex shape true D s + submatrixEltIndex D c.1 c.2.1 c.2.2

/-- A coefficient with a place for a cell: one above the diagonal, or one towards a cell of the region. -/
def HasPlace (shape : StencilShape) (D : Subregion) (s : ℕ) (c : Cell) : Prop :=
  c ∈ D.points ∧ (¬ IsLower shape s ∨ c + stencilElt shape s ∈ D.points)

/-- The coefficients of two cells for each other share a place, and all others have different places. -/
structure SymmetricStorage (shape : StencilShape) (D : Subregion) : Prop where
  shared : ∀ s < shape.length, ∀ t < shape.length, stencilElt shape t = -stencilElt shape s → ∀ c ∈ D.points,
    c + stencilElt shape s ∈ D.points → coeffPlace shape D s c = coeffPlace shape D t (c + stencilElt shape s)
  distinct : ∀ s < shape.length, ∀ t < shape.length, ∀ c d, HasPlace shape D s c → HasPlace shape D t d →
    coeffPlace shape D s c = coeffPlace shape D t d →
      (s = t ∧ c = d) ∨ (stencilElt shape t = -stencilElt shape s ∧ d = c + stencilElt shape s)

/-- Every element above the diagonal that joins two cells of the region comes last among the elements with
its first two components. -/
def PartnersLast (shape : StencilShape) (D : Subregion) : Prop :=
  ∀ n < shape.length, IsLower shape n → Joins D (stencilElt shape n) → ∀ k < shape.length,
    stencilElt shape k = -stencilElt shape n → ∀ j < shape.length, (stencilElt shape j).1 = (stencilElt shape k).1 →
      (stencilElt shape j).2.1 = (stencilElt shape k).2.1 → j ≤ k

/-- The distance of two cells in the data array is that of an array without strides. -/
def ShiftFits (shape : StencilShape) (D : Subregion) : Prop :=
  ∀ v ∈ shape, ∀ c ∈ D.points, c + v ∈ D.points →
    submatrixEltIndex D (c + v).1 (c + v).2.1 (c + v).2.2 = submatrixEltIndex D c.1 c.2.1 c.2.2 + flatShift D.nx D.ny v

instance (shape : StencilShape) (D : Subregion) : Decidable (PartnersLast shape D) :=
  have _h : ∀ n : ℕ, Decidable (∀ k < shape.length, stencilElt shape k = -stencilElt shape n → ∀ j < shape.length,
      (stencilElt shape j).1 = (stencilElt shape k).1 → (stencilElt shape j).2.1 = (stencilElt shape k).2.1 → j ≤ k) :=
    fun _ => inferInstance
  inferInstanceAs (Decidable (∀ n < shape.length, _ → _))

theorem shiftFits_of_unitStride (hD : D.UnitStride) : ShiftFits shape D := by
  obtain ⟨hx, hy, hz⟩ := hD
  intro v _ c _ _
  unfold submatrixEltIndex flatShift
  rw [hx, hy, hz]
  simp only [Int.tdiv_one, Prod.fst_add, Prod.snd_add]
  ring

theorem symmetricCoeff_eq_iff (hs : ClosedStencil shape) (hk : k < shape.length) (hlow : IsLower shape k) (hn : n < shape.length)
    (he : stencilElt shape n = -stencilElt shape k) : symmetricCoeff shape true k = n ↔
      ∀ j < shape.length, (stencilElt shape j).1 = (stencilElt shape n).1 → (stencilElt shape j).2.1 = (stencilElt shape n).2.1 →
        j ≤ n := by
  obtain ⟨hlt, ⟨hmx, hmy, -⟩, hmax⟩ := symmetricCoeff_spec hs hk hlow
  have hnx : (stencilElt shape n).1 = -(stencilElt shape k).1 := by rw [he, Prod.fst_neg]
  have hny : (stencilElt shape n).2.1 = -(stencilElt shape k).2.1 := by rw [he, Prod.snd_neg, Prod.fst_neg]
  constructor
  · rintro rfl j hj hjx hjy
    exact hmax j hj ⟨by omega, by omega, by omega⟩
  · intro h
    apply le_antisymm
    · exact h _ hlt (by omega) (by omega)
    · exact hmax n hn ⟨by omega, by omega, by omega⟩

theorem matrixDataIndex_partner (hs : ClosedStencil shape) (hk : k < shape.length) (hlow : IsLower shape k)
    (hn : symmetricCoeff shape true k = n) (he : stencilElt shape n = -stencilElt shape k) (hnlt : n < shape.length) :
    matrixDataIndex shape true D k = matrixDataIndex shape true D n + flatShift D.nx D.ny (stencilElt shape k) := by
  have hn0 : symmetricCoeff shape true n = 0 := (symmetricCoeff_eq_zero hs hnlt).mpr (not_isLower_partner hlow he)
  rw [matrixDataIndex_lower hk (fun h0 => (symmetricCoeff_eq_zero hs hk).mp h0 hlow), hn, matrixDataIndex_stored hn0, ite_self]

/-- Cells have different places, within the size of the region. -/
theorem eltIndex_spec (hD : D.Strided) {c : Cell} (hc : c ∈ D.points) :
    0 ≤ submatrixEltIndex D c.1 c.2.1 c.2.2 ∧ submatrixEltIndex D c.1 c.2.1 c.2.2 < D.nx * D.ny * D.nz ∧
      ∀ d ∈ D.points, submatrixEltIndex D c.1 c.2.1 c.2.2 = submatrixEltIndex D d.1 d.2.1 d.2.2 → c = d := by
  have hindex : ∀ {d : Cell} {i j k : ℤ}, D.ix + i * D.sx = d.1 → D.iy + j * D.sy = d.2.1 → D.iz + k * D.sz = d.2.2 →
      submatrixEltIndex D d.1 d.2.1 d.2.2 = i + (j + k * D.ny) * D.nx := by
    intro d i j k hx hy hz
    unfold submatrixEltIndex
    rw [← hx, ← hy, ← hz, add_sub_cancel_left, add_sub_cancel_left, add_sub_cancel_left, Int.mul_tdiv_cancel _ hD.1.ne',
      Int.mul_tdiv_cancel _ hD.2.1.ne', Int.mul_tdiv_cancel _ hD.2.2.ne']
  obtain ⟨⟨i, hi, hx⟩, ⟨j, hj, hy⟩, k, hk, hz⟩ := mem_points.mp hc
  rw [hindex hx hy hz]
  refine ⟨?_, ?_, ?_⟩
  · have h₁ : 0 ≤ (j + k * D.ny) * D.nx := mul_nonneg (add_nonneg hj.1 (mul_nonneg hk.1 (by omega))) (by omega)
    omega
  · have h₁ : k * D.ny ≤ (D.nz - 1) * D.ny := mul_le_mul_of_nonneg_right (by omega) (by omega)
    have h₂ : (j + k * D.ny) * D.nx ≤ (D.ny * D.nz - 1) * D.nx := mul_le_mul_of_nonneg_right (by linarith) (by omega)
    linarith [mul_assoc D.nx D.ny D.nz, mul_comm D.nx (D.ny * D.nz)]
  · intro d hd h
    obtain ⟨⟨i', hi', hx'⟩, ⟨j', hj', hy'⟩, k', hk', hz'⟩ := mem_points.mp hd
    rw [hindex hx' hy' hz'] at h
    obtain ⟨rfl, h₁⟩ := radix_inj hi hi' h
    obtain ⟨rfl, h₂⟩ := radix_inj hj hj' h₁
    subst h₂
    exact Prod.ext (hx.symm.trans hx') (Prod.ext (hy.symm.trans hy') (hz.symm.trans hz'))

section Storage

variable (hs : ClosedStencil shape) (hD : D.Strided) (hlast : PartnersLast shape D) (hfits : ShiftFits shape D)

include hs hlast hfits

theorem coeffPlace_lower {s t : ℕ} (hslt : s < shape.length) (ht : t < shape.length) (hlow : IsLower shape s)
    (he : stencilElt shape t = -stencilElt shape s) {c : Cell} (hc : c ∈ D.points) (hcs : c + stencilElt shape s ∈ D.points) :
    coeffPlace shape D s c = coeffPlace shape D t (c + stencilElt shape s) := by
  have hpartner : symmetricCoeff shape true s = t := (symmetricCoeff_eq_iff hs hslt hlow ht he).mpr
    (hlast s hslt hlow ⟨c, hc, hcs⟩ t ht he)
  have hmem : stencilElt shape s ∈ shape := by
    rw [stencilElt_eq hslt]
    exact List.getElem_mem hslt
  unfold coeffPlace
  rw [hfits _ hmem c hc hcs, matrixDataIndex_partner hs hslt hlow hpartner he ht]
  ring

theorem shared_of_partnersLast {s t : ℕ} (hslt : s < shape.length) (ht : t < shape.length)
    (he : stencilElt shape t = -stencilElt shape s) {c : Cell} (hc : c ∈ D.points) (hcs : c + stencilElt shape s ∈ D.points) :
    coeffPlace shape D s c = coeffPlace shape D t (c + stencilElt shape s) := by
  by_cases hlow : IsLower shape s
  · exact coeffPlace_lower hs hlast hfits hslt ht hlow he hc hcs
  · by_cases hs0 : s = 0
    · subst hs0
      rw [hs.centre, neg_zero] at he
      rw [stencilElt_inj hs ht hs.pos (he.trans hs.centre.symm), hs.centre, add_zero]
    · have hback : c + stencilElt shape s + stencilElt shape t = c := by rw [he, add_neg_cancel_right]
      have hlow' := isLower_of_not hs hslt hs0 hlow he
      have hplace := coeffPlace_lower hs hlast hfits ht hslt hlow' (by rw [he, neg_neg]) hcs (by rwa [hback])
      rw [hplace, hback]

/-- Each coefficient with a place is stored at an element above the diagonal. -/
theorem exists_stored {s : ℕ} (hslt : s < shape.length) {c : Cell} (hplace : HasPlace shape D s c) :
    ∃ k < shape.length, ∃ d ∈ D.points, symmetricCoeff shape true k = 0 ∧
      coeffPlace shape D s c = D.nx * D.ny * D.nz * rank shape k + submatrixEltIndex D d.1 d.2.1 d.2.2 ∧
      ((k = s ∧ d = c ∧ ¬ IsLower shape s) ∨
        (IsLower shape s ∧ stencilElt shape k = -stencilElt shape s ∧ d = c + stencilElt shape s)) := by
  have hentry : ∀ {k : ℕ} {d : Cell}, k < shape.length → ¬ IsLower shape k →
      coeffPlace shape D k d = D.nx * D.ny * D.nz * rank shape k + submatrixEltIndex D d.1 d.2.1 d.2.2 := by
    intro k d hk hlow
    have hk0 := (symmetricCoeff_eq_zero hs hk).mpr hlow
    unfold coeffPlace
    rw [matrixDataIndex_stored hk0, storedIndex, if_pos ⟨hk, hk0⟩]
  by_cases hlow : IsLower shape s
  · obtain ⟨k, hk, he⟩ := exists_partner hs hslt
    have hcs := hplace.2.resolve_left (not_not.mpr hlow)
    have hklow := not_isLower_partner hlow he
    refine ⟨k, hk, _, hcs, (symmetricCoeff_eq_zero hs hk).mpr hklow, ?_, Or.inr ⟨hlow, he, rfl⟩⟩
    rw [coeffPlace_lower hs hlast hfits hslt hk hlow he hplace.1 hcs, hentry hk hklow]
  · exact ⟨s, hslt, c, hplace.1, (symmetricCoeff_eq_zero hs hslt).mpr hlow, hentry hslt hlow, Or.inl ⟨rfl, rfl, hlow⟩⟩

include hD in
theorem symmetricStorage_of_partnersLast : SymmetricStorage shape D := by
  constructor
  · intro s hslt t ht he c hc hcs
    exact shared_of_partnersLast hs hlast hfits hslt ht he hc hcs
  · intro s hslt t ht c d hplace hplace' heq
    obtain ⟨k, hk, c', hc', hk0, hkplace, hkcase⟩ := exists_stored hs hlast hfits hslt hplace
    obtain ⟨m, hm, d', hd', hm0, hmplace, hmcase⟩ := exists_stored hs hlast hfits ht hplace'
    obtain ⟨h0c, hltc, hinj⟩ := eltIndex_spec hD hc'
    obtain ⟨h0d, hltd, -⟩ := eltIndex_spec hD hd'
    -- both are stored at the same element and cell
    rw [hkplace, hmplace] at heq
    have hradix : submatrixEltIndex D c'.1 c'.2.1 c'.2.2 + (rank shape k : ℤ) * (D.nx * D.ny * D.nz) =
        submatrixEltIndex D d'.1 d'.2.1 d'.2.2 + (rank shape m : ℤ) * (D.nx * D.ny * D.nz) := by linarith
    obtain ⟨hidx, hrank⟩ := radix_inj ⟨h0c, hltc⟩ ⟨h0d, hltd⟩ hradix
    have hkm : k = m := rank_inj hk0 hm0 (by exact_mod_cast hrank)
    have hcd : c' = d' := hinj d' hd' hidx
    subst hkm hcd
    rcases hkcase with ⟨rfl, rfl, hslow⟩ | ⟨hslow, hks, rfl⟩
    · rcases hmcase with ⟨rfl, rfl, -⟩ | ⟨-, hkt, hdt⟩
      · exact Or.inl ⟨rfl, rfl⟩
      · refine Or.inr ⟨by rw [hkt, neg_neg], ?_⟩
        rw [hdt, hkt, add_neg_cancel_right]
    · rcases hmcase with ⟨rfl, rfl, -⟩ | ⟨-, hkt, hdt⟩
      · exact Or.inr ⟨hks, rfl⟩
      · have hst : stencilElt shape s = stencilElt shape t := neg_injective (hks.symm.trans hkt)
        refine Or.inl ⟨stencilElt_inj hs hslt ht hst, ?_⟩
        rw [hst] at hdt
        exact add_right_cancel hdt

end Storage

/-- The storage is symmetric when every partner comes last among the elements that the search takes for it.
On a region without strides, where every symmetric matrix is stored, it is symmetric only then. -/
theorem symmetricStorage_iff (shape : StencilShape) (hs : ClosedStencil shape) (D : Subregion) (hD : D.Strided) :
    (PartnersLast shape D ∧ ShiftFits shape D → SymmetricStorage shape D) ∧
      (D.UnitStride → (SymmetricStorage shape D ↔ PartnersLast shape D)) := by
  constructor
  · rintro ⟨hlast, hfits⟩
    exact symmetricStorage_of_partnersLast hs hD hlast hfits
  · intro hunit
    constructor
    · intro h n hn hlow hjoins k hk he
      have hindex : matrixDataIndex shape true D n = matrixDataIndex shape true D k + flatShift D.nx D.ny (stencilElt shape n) := by
        obtain ⟨c, hc, hcn⟩ := hjoins
        have hplace := h.shared n hn k hk he c hc hcn
        have hmem : stencilElt shape n ∈ shape := by
          rw [stencilElt_eq hn]
          exact List.getElem_mem hn
        unfold coeffPlace at hplace
        rw [shiftFits_of_unitStride hunit _ hmem c hc hcn] at hplace
        linarith
      exact (symmetricCoeff_eq_iff hs hn hlow hk he).mp (partner_of_index hs hunit hn hlow hjoins hk he hindex)
    · intro hlast
      exact symmetricStorage_of_partnersLast hs hD hlast (shiftFits_of_unitStride hunit)

end Stencil

/-- The seven points in the order that the solvers use. -/
def sevenPointShape : StencilShape := [(0, 0, 0), (-1, 0, 0), (1, 0, 0), (0, -1, 0), (0, 1, 0), (0, 0, -1), (0, 0, 1)]

theorem sevenPoint_symmetricStorage : SymmetricStorage sevenPointShape (newSubgrid 0 0 0 2 2 2 0 0 0 0) :=
  ((symmetricStorage_iff sevenPointShape (by decide) (newSubgrid 0 0 0 2 2 2 0 0 0 0) ⟨one_pos, one_pos, one_pos⟩).2
    ⟨rfl, rfl, rfl⟩).mpr (by decide)

/-- The seven points with the upper point before the lower one. -/
def upperFirstShape : StencilShape := [(0, 0, 0), (-1, 0, 0), (1, 0, 0), (0, -1, 0), (0, 1, 0), (0, 0, 1), (0, 0, -1)]

/-- The element `(0, 0, -1)` is taken for its own partner. -/
theorem upperFirst_not_symmetricStorage : ¬ ∀ shape, ClosedStencil shape → ∀ D : Subregion, D.Strided → D.UnitStride →
    SymmetricStorage shape D := by
  intro h
  have hshared := (h upperFirstShape (by decide) (newSubgrid 0 0 0 1 1 2 0 0 0 0) ⟨one_pos, one_pos, one_pos⟩
    ⟨rfl, rfl, rfl⟩).shared 6 (by decide) 5 (by decide) (by decide) (0, 0, 1) (by decide) (by decide)
  exact absurd hshared (by decide)

end ParFlow
