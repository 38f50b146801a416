import ParFlow.Comm.PackDefs

/-! Both ways to enumerate a communicated subregion give the addresses of its points. -/

namespace ParFlow

open IntLoop Strided

/-! ## Strides -/

theorem incrementalStride_eq (ds : Dimensions) (i : ℕ) : incrementalStride ds i = ds.sa i - extent ds.len ds.sa i := by
  have h : ∀ n a, (List.range n).foldl (fun stride j => stride - ds.sa j * (ds.len j - 1)) a =
      a - extent ds.len ds.sa n := by
    intro n a
    induction n with
    | zero => simp [extent]
    | succ n ih =>
      rw [List.range_succ, List.foldl_append, ih]
      simp only [List.foldl_cons, List.foldl_nil, extent]
      ring
  exact h i _

theorem vectorIn_eq {ds : Dimensions} {n : ℕ} (hlen : ∀ j < n, 0 < ds.len j) {d : ℕ} (hd : d < n) (p : ℤ) :
    vectorIn ds.len (incrementalStride ds) d p =
      ((offsets ds.len ds.sa (d + 1)).map (p + ·), p + extent ds.len ds.sa (d + 1)) := by
  induction d generalizing p with
  | zero =>
    simp only [vectorIn, incrementalStride_eq, offsets, extent, List.map_cons, List.map_nil, List.map_flatMap,
      sub_zero, zero_add, Prod.mk.injEq]
    constructor
    · rw [← List.map_eq_flatMap]
    · ring
  | succ d ih =>
    have hpos := hlen (d + 1) hd
    have hcount : (((ds.len (d + 1) - 1).toNat : ℕ) : ℤ) = ds.len (d + 1) - 1 := by omega
    rw [vectorIn, walkLoop_eq (ih (by omega)), hcount, incrementalStride_eq]
    simp only [sub_add_cancel, add_sub_cancel, Prod.mk.injEq]
    constructor
    · rw [offsets_succ _ _ (d + 1), List.map_flatMap]
      simp only [List.map_map, Function.comp_def]
    · rw [extent_succ _ _ (d + 1)]
      ring

theorem mpiVectorType_eq (ds : Dimensions) (elementSize : ℤ) (d : ℕ) :
    mpiVectorType elementSize ds.len (incrementalStride ds) d =
      ((offsets ds.len ds.sa (d + 1)).map (· * elementSize), elementSize * (extent ds.len ds.sa (d + 1) + 1)) := by
  induction d with
  | zero =>
    simp only [mpiVectorType, mpiTypeVector, incrementalStride_eq, offsets, extent, List.map_cons, List.map_nil,
      List.map_flatMap, sub_zero, zero_add, Prod.mk.injEq]
    constructor
    · rw [← List.map_eq_flatMap]
    · ring
  | succ d ih =>
    rw [mpiVectorType, ih, incrementalStride_eq]
    simp only [mpiTypeCreateHvector, Prod.mk.injEq]
    constructor
    · rw [offsets_succ _ _ (d + 1), List.map_flatMap]
      simp only [List.map_map, Function.comp_def]
      apply List.flatMap_congr
      intro k _
      apply List.map_congr_left
      intro a _
      ring
    · rw [extent_succ _ _ (d + 1)]
      ring

/-! ## Elimination of dimensions -/

/-- Another description of the same block. -/
structure SameBlock (ds ds' : Dimensions) : Prop where
  dim_le : ds'.dim ≤ 4
  len_pos : ∀ j < ds'.dim, 0 < ds'.len j
  offsets_eq : offsets ds'.len ds'.sa ds'.dim = offsets ds.len ds.sa ds.dim

theorem shiftDown_apply {i j : ℕ} (hj : j < 3) (a : ℕ → ℤ) : shiftDown i a j = if j < i then a j else a (j + 1) := by
  unfold shiftDown
  split_ifs <;> first | rfl | omega

theorem SameBlock.eliminateAt {ds₀ ds : Dimensions} (h : SameBlock ds₀ ds) (i : ℕ) : SameBlock ds₀ (eliminateAt ds i) := by
  unfold ParFlow.eliminateAt
  split_ifs with hi
  · obtain ⟨d, hd⟩ : ∃ d, ds.dim = d + 1 := ⟨ds.dim - 1, by omega⟩
    have hd3 : d ≤ 3 := by have := h.dim_le; omega
    constructor
    · show ds.dim - 1 ≤ 4
      omega
    · intro j hj
      replace hj : j < ds.dim - 1 := hj
      show 0 < shiftDown i ds.len j
      rw [shiftDown_apply (by omega)]
      split_ifs
      · exact h.len_pos j (by omega)
      · exact h.len_pos (j + 1) (by omega)
    · rw [← h.offsets_eq, hd, ← offsets_skip hi.2 (by omega)]
      show offsets (shiftDown i ds.len) (shiftDown i ds.sa) d = _
      exact offsets_congr (fun j hj => shiftDown_apply (by omega) _) fun j hj => shiftDown_apply (by omega) _
  · exact h

theorem eliminateAt_dim (ds : Dimensions) (i : ℕ) :
    (eliminateAt ds i).dim = ds.dim ∨ (i < ds.dim ∧ (eliminateAt ds i).dim = ds.dim - 1) := by
  unfold eliminateAt
  split_ifs with hi
  · exact Or.inr ⟨hi.1, rfl⟩
  · exact Or.inl rfl

/-- Two of the dimensions are left at least, since the loop skips a dimension after each one that it
eliminates. -/
theorem two_le_dim (ds : Dimensions) (hd : ds.dim = 4) : 2 ≤ ([0, 1, 2, 3].foldl eliminateAt ds).dim := by
  simp only [List.foldl_cons, List.foldl_nil]
  have h₀ := eliminateAt_dim ds 0
  have h₁ := eliminateAt_dim (eliminateAt ds 0) 1
  have h₂ := eliminateAt_dim (eliminateAt (eliminateAt ds 0) 1) 2
  have h₃ := eliminateAt_dim (eliminateAt (eliminateAt (eliminateAt ds 0) 1) 2) 3
  omega

theorem sameBlock_eliminated {ds : Dimensions} (hd : ds.dim = 4) (hlen : ∀ j < ds.dim, 0 < ds.len j) :
    SameBlock ds ([0, 1, 2, 3].foldl eliminateAt ds) := by
  have h : SameBlock ds ds := ⟨hd.le, hlen, rfl⟩
  exact (((h.eliminateAt 0).eliminateAt 1).eliminateAt 2).eliminateAt 3

/-! ## Addresses -/

/-- The address of variable `v` at a point of the data space. -/
def eltAddress (dataSr : Subregion) (index numVars v : ℤ) (c : Cell) : ℤ :=
  (c.1 - dataSr.ix) / dataSr.sx + (c.2.1 - dataSr.iy) / dataSr.sy * dataSr.nx +
    (c.2.2 - dataSr.iz) / dataSr.sz * dataSr.nx * dataSr.ny + v * (dataSr.nz * dataSr.ny * dataSr.nx) +
    index * numVars * dataSr.nx * dataSr.ny * dataSr.nz

/-- The addresses of all points, `x` fastest, then `y`, `z` and the variable. -/
def commAddresses (dataSr commSr : Subregion) (index numVars : ℤ) : List ℤ :=
  (upto 0 numVars).flatMap fun v => commSr.points.map (eltAddress dataSr index numVars v)

/-- A subregion with positive striding factors. -/
def Subregion.Strided (s : Subregion) : Prop := 0 < s.sx ∧ 0 < s.sy ∧ 0 < s.sz

/-- The points of one subregion lie in another. -/
def Subregion.Contained (s t : Subregion) : Prop := ∀ c ∈ s.points, c ∈ t.points

theorem axis_address {lo s lo' s' n n' : ℤ} (hs : 0 < s)
    (h : ∀ i, 0 ≤ i → i < n' → ∃ k, (0 ≤ k ∧ k < n) ∧ lo' + i * s' = lo + k * s) {i : ℤ} (hi : 0 ≤ i) (hi' : i < n') :
    (lo' + i * s' - lo) / s = (lo' - lo).tdiv s + i * s'.tdiv s := by
  obtain ⟨k₀, -, hk₀⟩ := h 0 le_rfl (by omega)
  have hlo : lo' - lo = k₀ * s := by linarith
  have hs0 : s ≠ 0 := hs.ne'
  rcases hi.eq_or_lt with rfl | hpos
  · rw [zero_mul, add_zero, zero_mul, add_zero, hlo, Int.mul_tdiv_cancel _ hs0, Int.mul_ediv_cancel _ hs0]
  · obtain ⟨k₁, -, hk₁⟩ := h 1 zero_le_one (by omega)
    have hstep : s' = (k₁ - k₀) * s := by linarith
    have hsum : lo' + i * s' - lo = (k₀ + i * (k₁ - k₀)) * s := by
      rw [hstep]
      linarith
    rw [hsum, hlo, hstep, Int.mul_tdiv_cancel _ hs0, Int.mul_tdiv_cancel _ hs0, Int.mul_ediv_cancel _ hs0]

namespace Subregion

variable {s t : Subregion} {c : Cell}

theorem mem_points : c ∈ s.points ↔ (∃ i, (0 ≤ i ∧ i < s.nx) ∧ s.ix + i * s.sx = c.1) ∧
    (∃ j, (0 ≤ j ∧ j < s.ny) ∧ s.iy + j * s.sy = c.2.1) ∧ ∃ k, (0 ≤ k ∧ k < s.nz) ∧ s.iz + k * s.sz = c.2.2 := by
  obtain ⟨x, y, z⟩ := c
  simp only [points, List.mem_map, mem_nest, mem_upto, Prod.mk.injEq, Prod.exists]
  constructor
  · rintro ⟨i, j, k, ⟨hi, hj, hk⟩, hx, hy, hz⟩
    exact ⟨⟨i, hi, hx⟩, ⟨j, hj, hy⟩, k, hk, hz⟩
  · rintro ⟨⟨i, hi, hx⟩, ⟨j, hj, hy⟩, k, hk, hz⟩
    exact ⟨i, j, k, ⟨hi, hj, hk⟩, hx, hy, hz⟩

/-- Containment along each axis. -/
theorem Contained.axes (h : s.Contained t) (hne : s.NonEmpty) :
    (∀ i, 0 ≤ i → i < s.nx → ∃ k, (0 ≤ k ∧ k < t.nx) ∧ s.ix + i * s.sx = t.ix + k * t.sx) ∧
    (∀ i, 0 ≤ i → i < s.ny → ∃ k, (0 ≤ k ∧ k < t.ny) ∧ s.iy + i * s.sy = t.iy + k * t.sy) ∧
    ∀ i, 0 ≤ i → i < s.nz → ∃ k, (0 ≤ k ∧ k < t.nz) ∧ s.iz + i * s.sz = t.iz + k * t.sz := by
  obtain ⟨hx, hy, hz⟩ := hne
  have hmem : ∀ i j k, (0 ≤ i ∧ i < s.nx) → (0 ≤ j ∧ j < s.ny) → (0 ≤ k ∧ k < s.nz) →
      (s.ix + i * s.sx, s.iy + j * s.sy, s.iz + k * s.sz) ∈ t.points := fun i j k hi hj hk =>
    h _ (mem_points.mpr ⟨⟨i, hi, rfl⟩, ⟨j, hj, rfl⟩, k, hk, rfl⟩)
  refine ⟨fun i hi hi' => ?_, fun j hj hj' => ?_, fun k hk hk' => ?_⟩
  · obtain ⟨m, hm, he⟩ := (mem_points.mp (hmem i 0 0 ⟨hi, hi'⟩ ⟨le_rfl, hy⟩ ⟨le_rfl, hz⟩)).1
    exact ⟨m, hm, he.symm⟩
  · obtain ⟨m, hm, he⟩ := (mem_points.mp (hmem 0 j 0 ⟨le_rfl, hx⟩ ⟨hj, hj'⟩ ⟨le_rfl, hz⟩)).2.1
    exact ⟨m, hm, he.symm⟩
  · obtain ⟨m, hm, he⟩ := (mem_points.mp (hmem 0 0 k ⟨le_rfl, hx⟩ ⟨le_rfl, hy⟩ ⟨hk, hk'⟩)).2.2
    exact ⟨m, hm, he.symm⟩

theorem points_nodup (h : s.Strided) : s.points.Nodup := by
  refine List.Nodup.map ?_ (nest_nodup (upto_nodup _ _) (upto_nodup _ _) (upto_nodup _ _))
  rintro ⟨i, j, k⟩ ⟨i', j', k'⟩ he
  simp only [Prod.mk.injEq, add_right_inj] at he
  have h₁ := mul_right_cancel₀ h.1.ne' he.1
  have h₂ := mul_right_cancel₀ h.2.1.ne' he.2.1
  have h₃ := mul_right_cancel₀ h.2.2.ne' he.2.2
  rw [h₁, h₂, h₃]

end Subregion

section CommPkg

variable {dataSr commSr : Subregion} {index numVars : ℤ}

theorem offsets_commDimensions : offsets (commDimensions dataSr commSr numVars).len (commDimensions dataSr commSr numVars).sa 4 =
    (upto 0 numVars).flatMap fun v => (nest (upto 0 commSr.nz) (upto 0 commSr.ny) (upto 0 commSr.nx)).map fun c =>
      c.1 * commSr.sx.tdiv dataSr.sx + c.2.1 * (commSr.sy.tdiv dataSr.sy * dataSr.nx) +
        c.2.2 * (commSr.sz.tdiv dataSr.sz * dataSr.ny * dataSr.nx) + v * (dataSr.nz * dataSr.ny * dataSr.nx) := by
  simp only [offsets, commDimensions, nest, List.map_flatMap, List.map_map, List.map_cons, List.map_nil, Function.comp_def,
    zero_add, one_mul]
  apply List.flatMap_congr
  intro v _
  apply List.flatMap_congr
  intro k _
  apply List.flatMap_congr
  intro j _
  rw [← List.map_eq_flatMap]

theorem offset_add_offsets (hdata : dataSr.Strided) (hne : commSr.NonEmpty) (hsub : commSr.Contained dataSr) :
    (offsets (commDimensions dataSr commSr numVars).len (commDimensions dataSr commSr numVars).sa 4).map
      ((newCommPkgInfo dataSr commSr index numVars).offset + ·) = commAddresses dataSr commSr index numVars := by
  obtain ⟨hx, hy, hz⟩ := hsub.axes hne
  rw [offsets_commDimensions, commAddresses, List.map_flatMap]
  apply List.flatMap_congr
  intro v _
  rw [List.map_map, Subregion.points, List.map_map]
  apply List.map_congr_left
  intro c hc
  obtain ⟨hi, hj, hk⟩ := mem_nest.mp hc
  rw [mem_upto] at hi hj hk
  simp only [Function.comp_apply, eltAddress, newCommPkgInfo, axis_address hdata.1 hx hi.1 hi.2,
    axis_address hdata.2.1 hy hj.1 hj.2, axis_address hdata.2.2 hz hk.1 hk.2]
  ring

/-- The address is a number in a mixed radix. -/
theorem eltAddress_eq (dataSr : Subregion) (index numVars v : ℤ) (c : Cell) : eltAddress dataSr index numVars v c =
    (c.1 - dataSr.ix) / dataSr.sx + ((c.2.1 - dataSr.iy) / dataSr.sy +
      ((c.2.2 - dataSr.iz) / dataSr.sz + (v + index * numVars) * dataSr.nz) * dataSr.ny) * dataSr.nx := by
  unfold eltAddress
  ring

theorem eltAddress_inj (hdata : dataSr.Strided) {v v' : ℤ} {c c' : Cell} (hc : c ∈ dataSr.points)
    (hc' : c' ∈ dataSr.points) (h : eltAddress dataSr index numVars v c = eltAddress dataSr index numVars v' c') :
    v = v' ∧ c = c' := by
  have hquot : ∀ {s lo k x : ℤ}, 0 < s → lo + k * s = x → (x - lo) / s = k := by
    intro s lo k x hs hx
    rw [← hx, add_sub_cancel_left, Int.mul_ediv_cancel _ hs.ne']
  obtain ⟨⟨i, hi, hx⟩, ⟨j, hj, hy⟩, k, hk, hz⟩ := Subregion.mem_points.mp hc
  obtain ⟨⟨i', hi', hx'⟩, ⟨j', hj', hy'⟩, k', hk', hz'⟩ := Subregion.mem_points.mp hc'
  rw [eltAddress_eq, eltAddress_eq, hquot hdata.1 hx, hquot hdata.1 hx', hquot hdata.2.1 hy, hquot hdata.2.1 hy',
    hquot hdata.2.2 hz, hquot hdata.2.2 hz'] at h
  obtain ⟨rfl, h₁⟩ := radix_inj hi hi' h
  obtain ⟨rfl, h₂⟩ := radix_inj hj hj' h₁
  obtain ⟨rfl, h₃⟩ := radix_inj hk hk' h₂
  exact ⟨add_right_cancel h₃, Prod.ext (hx.symm.trans hx') (Prod.ext (hy.symm.trans hy') (hz.symm.trans hz'))⟩

/-- The values of a message: a variable at a point. -/
def commItems (commSr : Subregion) (numVars : ℤ) : List (ℤ × Cell) :=
  (upto 0 numVars).flatMap fun v => commSr.points.map fun c => (v, c)

theorem mem_commItems {v : ℤ} {c : Cell} : (v, c) ∈ commItems commSr numVars ↔ (0 ≤ v ∧ v < numVars) ∧ c ∈ commSr.points := by
  simp [commItems]

theorem commAddresses_eq_map : commAddresses dataSr commSr index numVars =
    (commItems commSr numVars).map fun vc => eltAddress dataSr index numVars vc.1 vc.2 := by
  simp [commAddresses, commItems, List.map_flatMap, Function.comp_def]

theorem commItems_nodup (hcomm : commSr.Strided) : (commItems commSr numVars).Nodup := by
  refine List.nodup_flatMap.mpr ⟨fun v _ => ?_, ?_⟩
  · exact (Subregion.points_nodup hcomm).map fun c c' h => (Prod.mk.inj h).2
  · refine (upto_nodup _ _).imp fun {v v'} hne => List.disjoint_left.mpr fun vc hvc hvc' => ?_
    obtain ⟨c, -, rfl⟩ := List.mem_map.mp hvc
    obtain ⟨c', -, h⟩ := List.mem_map.mp hvc'
    exact hne (Prod.mk.inj h).1.symm

theorem commAddresses_nodup (hdata : dataSr.Strided) (hcomm : commSr.Strided) (hsub : commSr.Contained dataSr) :
    (commAddresses dataSr commSr index numVars).Nodup := by
  rw [commAddresses_eq_map]
  refine List.Nodup.map_on ?_ (commItems_nodup hcomm)
  rintro ⟨v, c⟩ hvc ⟨v', c'⟩ hvc' h
  obtain ⟨rfl, rfl⟩ := eltAddress_inj hdata (hsub c (mem_commItems.mp hvc).2) (hsub c' (mem_commItems.mp hvc').2) h
  rfl

theorem newCommPkgInfo_dim (dataSr commSr : Subregion) (index numVars : ℤ) :
    (newCommPkgInfo dataSr commSr index numVars).dim =
      ([0, 1, 2, 3].foldl eliminateAt (commDimensions dataSr commSr numVars)).dim := by
  have h := two_le_dim (commDimensions dataSr commSr numVars) rfl
  exact if_neg (by omega)

theorem sameBlock_comm (dataSr : Subregion) (hne : commSr.NonEmpty) (hvars : 0 < numVars) :
    SameBlock (commDimensions dataSr commSr numVars)
      ([0, 1, 2, 3].foldl eliminateAt (commDimensions dataSr commSr numVars)) := by
  obtain ⟨hx, hy, hz⟩ := hne
  apply sameBlock_eliminated rfl
  intro j _
  rcases j with _ | _ | _ | j
  · exact hx
  · exact hy
  · exact hz
  · exact hvars

theorem ampsVectorIn_eq (hdata : dataSr.Strided) (hne : commSr.NonEmpty) (hvars : 0 < numVars)
    (hsub : commSr.Contained dataSr) :
    ampsVectorIn (newCommPkgInfo dataSr commSr index numVars) = commAddresses dataSr commSr index numVars := by
  have hblock := sameBlock_comm dataSr hne hvars
  have hdim := two_le_dim (commDimensions dataSr commSr numVars) rfl
  rw [ampsVectorIn, newCommPkgInfo_dim, ← offset_add_offsets hdata hne hsub]
  show (vectorIn ([0, 1, 2, 3].foldl eliminateAt (commDimensions dataSr commSr numVars)).len
    (incrementalStride ([0, 1, 2, 3].foldl eliminateAt (commDimensions dataSr commSr numVars))) _ _).1 = _
  rw [vectorIn_eq hblock.len_pos (by omega), Nat.sub_add_cancel (by omega), hblock.offsets_eq]
  rfl

theorem ampsCreateMpiType_eq (elementSize : ℤ) (hdata : dataSr.Strided) (hne : commSr.NonEmpty) (hvars : 0 < numVars)
    (hsub : commSr.Contained dataSr) : ampsCreateMpiType elementSize (newCommPkgInfo dataSr commSr index numVars) =
      (commAddresses dataSr commSr index numVars).map (· * elementSize) := by
  have hblock := sameBlock_comm dataSr hne hvars
  have hdim := two_le_dim (commDimensions dataSr commSr numVars) rfl
  rw [ampsCreateMpiType, newCommPkgInfo_dim, ← offset_add_offsets hdata hne hsub]
  show (mpiVectorType elementSize ([0, 1, 2, 3].foldl eliminateAt (commDimensions dataSr commSr numVars)).len
    (incrementalStride ([0, 1, 2, 3].foldl eliminateAt (commDimensions dataSr commSr numVars))) _).1.map _ = _
  rw [mpiVectorType_eq, Nat.sub_add_cancel (by omega), hblock.offsets_eq, List.map_map, List.map_map]
  apply List.map_congr_left
  intro a _
  simp only [Function.comp_apply]
  ring

/-! ## Transfer of values -/

section Values

variable {α ι : Type}

theorem unpackValues_of_notMem {a : ℤ} {addresses : List ℤ} (ha : a ∉ addresses) (data : ℤ → α) (values : List α) :
    unpackValues data addresses values a = data a := by
  induction addresses generalizing data values with
  | nil => rfl
  | cons b bs ih =>
    rw [List.mem_cons, not_or] at ha
    cases values with
    | nil => rfl
    | cons x xs =>
      show unpackValues (Function.update data b x) bs xs a = data a
      rw [ih ha.2, Function.update_of_ne ha.1]

/-- The value that was read at `f i` is written at `g i`. -/
theorem unpackValues_packValues {f g : ι → ℤ} {items : List ι} (hg : (items.map g).Nodup) {i : ι} (hi : i ∈ items)
    (send recv : ℤ → α) : unpackValues recv (items.map g) (packValues send (items.map f)) (g i) = send (f i) := by
  induction items generalizing recv with
  | nil => exact absurd hi List.not_mem_nil
  | cons j js ih =>
    rw [List.map_cons, List.nodup_cons] at hg
    show unpackValues (Function.update recv (g j) (send (f j))) (js.map g) (packValues send (js.map f)) (g i) = _
    rcases List.mem_cons.mp hi with rfl | hmem
    · rw [unpackValues_of_notMem hg.1, Function.update_self]
    · exact ih hg.2 hmem _

end Values

/-- How a process goes through the addresses of a message: with `amps_vector_in`, or with an MPI type
whose displacements are counted in elements. -/
inductive PackMethod where
  | vector
  | mpiType (elementSize : ℤ)

def PackMethod.addresses (info : LoopArray) : PackMethod → List ℤ
  | .vector => ampsVectorIn info
  | .mpiType elementSize => (ampsCreateMpiType elementSize info).map (· / elementSize)

def PackMethod.Sized : PackMethod → Prop
  | .vector => True
  | .mpiType elementSize => 0 < elementSize

theorem PackMethod.addresses_eq {method : PackMethod} (hm : method.Sized) (hdata : dataSr.Strided)
    (hne : commSr.NonEmpty) (hvars : 0 < numVars) (hsub : commSr.Contained dataSr) :
    method.addresses (newCommPkgInfo dataSr commSr index numVars) = commAddresses dataSr commSr index numVars := by
  cases method with
  | vector => exact ampsVectorIn_eq hdata hne hvars hsub
  | mpiType elementSize =>
    show (ampsCreateMpiType elementSize _).map _ = _
    rw [ampsCreateMpiType_eq elementSize hdata hne hvars hsub, List.map_map]
    have hid : (· / elementSize) ∘ (· * elementSize) = id := by
      funext a
      exact Int.mul_ediv_cancel a (ne_of_gt hm)
    rw [hid, List.map_id]

/-- A message carries the values at the points of the subregion, wherever the data spaces of the two
processes lie and whichever method each of them uses. -/
theorem transfer_eq {α : Type} {dataSr' : Subregion} {index' : ℤ} {method method' : PackMethod} (hm : method.Sized)
    (hm' : method'.Sized) (hdata : dataSr.Strided) (hdata' : dataSr'.Strided) (hcomm : commSr.Strided)
    (hne : commSr.NonEmpty) (hvars : 0 < numVars) (hsub : commSr.Contained dataSr) (hsub' : commSr.Contained dataSr')
    {v : ℤ} {c : Cell} (hv : 0 ≤ v ∧ v < numVars) (hc : c ∈ commSr.points) (send recv : ℤ → α) :
    unpackValues recv (method'.addresses (newCommPkgInfo dataSr' commSr index' numVars))
      (packValues send (method.addresses (newCommPkgInfo dataSr commSr index numVars)))
      (eltAddress dataSr' index' numVars v c) = send (eltAddress dataSr index numVars v c) := by
  have hnodup : (commAddresses dataSr' commSr index' numVars).Nodup := commAddresses_nodup hdata' hcomm hsub'
  rw [PackMethod.addresses_eq hm' hdata' hne hvars hsub', PackMethod.addresses_eq hm hdata hne hvars hsub,
    commAddresses_eq_map, commAddresses_eq_map]
  rw [commAddresses_eq_map] at hnodup
  exact unpackValues_packValues (i := (v, c)) hnodup (mem_commItems.mpr ⟨hv, hc⟩) send recv

theorem commPkgInfo_addresses (hdata : dataSr.Strided) (hcomm : commSr.Strided) (hne : commSr.NonEmpty)
    (hvars : 0 < numVars) (hsub : commSr.Contained dataSr) :
    ampsVectorIn (newCommPkgInfo dataSr commSr index numVars) = commAddresses dataSr commSr index numVars ∧
    (∀ elementSize, ampsCreateMpiType elementSize (newCommPkgInfo dataSr commSr index numVars) =
      (commAddresses dataSr commSr index numVars).map (· * elementSize)) ∧
    (commAddresses dataSr commSr index numVars).Nodup ∧
    ∀ (dataSr' : Subregion) (index' : ℤ), dataSr'.Strided → commSr.Contained dataSr' →
      ∀ method method' : PackMethod, method.Sized → method'.Sized → ∀ (α : Type) (send recv : ℤ → α),
      (∀ v c, (0 ≤ v ∧ v < numVars) → c ∈ commSr.points →
        unpackValues recv (method'.addresses (newCommPkgInfo dataSr' commSr index' numVars))
          (packValues send (method.addresses (newCommPkgInfo dataSr commSr index numVars)))
          (eltAddress dataSr' index' numVars v c) = send (eltAddress dataSr index numVars v c)) ∧
      ∀ a, a ∉ commAddresses dataSr' commSr index' numVars →
        unpackValues recv (method'.addresses (newCommPkgInfo dataSr' commSr index' numVars))
          (packValues send (method.addresses (newCommPkgInfo dataSr commSr index numVars))) a = recv a := by
  refine ⟨ampsVectorIn_eq hdata hne hvars hsub, fun elementSize => ampsCreateMpiType_eq elementSize hdata hne hvars hsub,
    commAddresses_nodup hdata hcomm hsub, ?_⟩
  intro dataSr' index' hdata' hsub' method method' hm hm' α send recv
  constructor
  · intro v c hv hc
    exact transfer_eq hm hm' hdata hdata' hcomm hne hvars hsub hsub' hv hc send recv
  · intro a ha
    apply unpackValues_of_notMem
    rwa [PackMethod.addresses_eq hm' hdata' hne hvars hsub']

/-- Every second point along `x` and `z` of a block, one layer along `y`. -/
theorem stridedBlock_addresses :
    ampsVectorIn (newCommPkgInfo ⟨-1, -1, -1, 6, 6, 6, 1, 1, 1, 0, 0, 0, 0⟩ ⟨0, 0, 0, 2, 1, 2, 2, 1, 2, 0, 0, 0, 1⟩ 0 2) =
      commAddresses ⟨-1, -1, -1, 6, 6, 6, 1, 1, 1, 0, 0, 0, 0⟩ ⟨0, 0, 0, 2, 1, 2, 2, 1, 2, 0, 0, 0, 1⟩ 0 2 :=
  (commPkgInfo_addresses ⟨by decide, by decide, by decide⟩ ⟨by decide, by decide, by decide⟩ ⟨by decide, by decide, by decide⟩
    (by decide) (by unfold Subregion.Contained; decide)).1

end CommPkg

end ParFlow
