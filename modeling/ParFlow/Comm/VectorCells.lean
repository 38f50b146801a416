import ParFlow.Lib.PointLoop
import ParFlow.Grid.BoxLoop
import ParFlow.Grid.SubgridDefs
import ParFlow.Grid.SubgridCells
import ParFlow.Comm.PackAddress

/-! Values of a subvector by cells, and what a box loop does to them. -/

namespace ParFlow

open IntLoop Strided PointLoop

/-- The index of a cell in a data array. -/
def cellIndex (ds : Subregion) (c : Cell) : ℤ := subvectorEltIndex ds c.1 c.2.1 c.2.2

def Subvector.get {α : Type} (v : Subvector α) (c : Cell) : α := v.data (cellIndex v.dataSpace c)

/-- The lower corner. -/
def Subregion.corner (s : Subregion) : Cell := (s.ix, s.iy, s.iz)

def Subregion.UnitStride (s : Subregion) : Prop := s.sx = 1 ∧ s.sy = 1 ∧ s.sz = 1

instance (s : Subregion) : Decidable s.UnitStride := inferInstanceAs (Decidable (_ ∧ _))

theorem cellIndex_inj {ds : Subgrid} {c d : Cell} (hc : c ∈ ds.cells) (hd : d ∈ ds.cells)
    (h : cellIndex ds c = cellIndex ds d) : c = d := by
  rw [Subregion.mem_cells_iff] at hc hd
  unfold cellIndex subvectorEltIndex at h
  obtain ⟨h₁, h₂⟩ := radix_inj (by omega) (by omega) h
  obtain ⟨h₃, h₄⟩ := radix_inj (by omega) (by omega) h₂
  exact Prod.ext (by omega) (Prod.ext (by omega) (by omega))

theorem cellIndex_add (ds : Subregion) (c v : Cell) (d : Cell) :
    cellIndex ds (c + v) - cellIndex ds (d + v) = cellIndex ds c - cellIndex ds d := by
  simp only [cellIndex, subvectorEltIndex, Prod.fst_add, Prod.snd_add]
  ring

/-! ## Points of a box -/

section Points

variable {box : Subregion}

theorem points_eq_nil (h : ¬ box.NonEmpty) : box.points = [] := by
  rw [List.eq_nil_iff_forall_not_mem]
  intro c hc
  obtain ⟨⟨i, hi, -⟩, ⟨j, hj, -⟩, k, hk, -⟩ := Subregion.mem_points.mp hc
  apply h
  unfold Subregion.NonEmpty
  omega

theorem cells_eq_empty (h : ¬ box.NonEmpty) : box.cells = ∅ := by
  rw [Finset.eq_empty_iff_forall_notMem]
  intro c hc
  rw [Subregion.mem_cells_iff] at hc
  apply h
  unfold Subregion.NonEmpty
  omega

theorem mem_points_iff (h : box.UnitStride) {c : Cell} : c ∈ box.points ↔ c ∈ box.cells := by
  obtain ⟨hx, hy, hz⟩ := h
  rw [Subregion.mem_points, Subregion.mem_cells_iff]
  simp only [hx, hy, hz, mul_one]
  constructor
  · rintro ⟨⟨i, hi, h₁⟩, ⟨j, hj, h₂⟩, k, hk, h₃⟩
    omega
  · rintro ⟨h₁, h₂, h₃⟩
    exact ⟨⟨c.1 - box.ix, by omega, by omega⟩, ⟨c.2.1 - box.iy, by omega, by omega⟩, c.2.2 - box.iz, by omega, by omega⟩

theorem Subregion.UnitStride.strided (h : box.UnitStride) : box.Strided := by
  obtain ⟨hx, hy, hz⟩ := h
  unfold Subregion.Strided
  omega

theorem points_eq_map (box : Subregion) : box.points =
    (boxLoopI0 box.ix box.iy box.iz box.nx box.ny box.nz).map fun c =>
      (box.ix + (c.1 - box.ix) * box.sx, box.iy + (c.2.1 - box.iy) * box.sy, box.iz + (c.2.2 - box.iz) * box.sz) := by
  have hshift : ∀ lo n : ℤ, upto lo (lo + n) = (upto 0 n).map (lo + ·) := by
    intro lo n
    simp only [upto, add_sub_cancel_left, sub_zero, List.map_map]
    apply List.map_congr_left
    intro k _
    simp
  unfold Subregion.points boxLoopI0
  rw [hshift, hshift, hshift]
  simp only [nest, List.flatMap_map, List.map_flatMap, List.map_map, Function.comp_def, add_sub_cancel_left]

end Points

/-! ## Box loops -/

theorem sweep_eq_nil {σ β : Type*} {body : ℤ → σ → List β × σ} (hbody : ∀ i st, (body i st).1 = []) (move : σ → σ) (n : ℕ)
    (i : ℤ) (st : σ) : (sweep body move n i st).1 = [] := by
  induction n generalizing i st with
  | zero => rfl
  | succ n ih => rw [sweep, hbody, ih, List.append_nil]

theorem boxLoop_eq_nil {σ : Type} {box : Subregion} (h : ¬ box.NonEmpty) (moveX moveY moveZ : σ → σ) (st : σ) :
    boxLoop moveX moveY moveZ box.ix box.iy box.iz box.nx box.ny box.nz st = [] := by
  have hzero : ∀ {n : ℤ}, ¬ 0 < n → n.toNat = 0 := fun h => by omega
  unfold boxLoop
  by_cases hz : 0 < box.nz
  · apply sweep_eq_nil
    intro k st
    by_cases hy : 0 < box.ny
    · apply sweep_eq_nil
      intro j st
      rw [hzero fun hx => h ⟨hx, hy, hz⟩]
      rfl
    · rw [hzero hy]
      rfl
  · rw [hzero hz]
    rfl

/-- The index of each iteration is the distance of its point from the corner. -/
theorem boxLoopI1_index (box ds : Subregion) :
    (boxLoopI1 box.ix box.iy box.iz box.nx box.ny box.nz 0 ds.nx ds.ny box.sx box.sy box.sz).map Prod.snd =
      box.points.map fun c => cellIndex ds c - cellIndex ds box.corner := by
  by_cases h : box.NonEmpty
  · obtain ⟨hx, hy, hz⟩ := h
    rw [boxLoopI1_eq hx.le hy.le hz.le, points_eq_map, List.map_map, List.map_map]
    apply List.map_congr_left
    intro c _
    simp only [Function.comp_apply, cellIndex, subvectorEltIndex, Subregion.corner]
    ring
  · rw [points_eq_nil h]
    unfold boxLoopI1
    rw [boxLoop_eq_nil h]
    rfl

theorem boxLoopI2_index (box ds ms : Subregion) :
    (boxLoopI2 box.ix box.iy box.iz box.nx box.ny box.nz 0 ds.nx ds.ny box.sx box.sy box.sz
      0 ms.nx ms.ny box.sx box.sy box.sz).map Prod.snd =
      box.points.map fun c => (cellIndex ds c - cellIndex ds box.corner, cellIndex ms c - cellIndex ms box.corner) := by
  by_cases h : box.NonEmpty
  · obtain ⟨hx, hy, hz⟩ := h
    rw [boxLoopI2_eq hx.le hy.le hz.le, points_eq_map, List.map_map, List.map_map]
    apply List.map_congr_left
    intro c _
    simp only [Function.comp_apply, cellIndex, subvectorEltIndex, Subregion.corner, Prod.mk.injEq]
    constructor <;> ring
  · rw [points_eq_nil h]
    unfold boxLoopI2
    rw [boxLoop_eq_nil h]
    rfl

section Cells

variable {α : Type} {s : Subgrid} {c : Cell}

/-- The cells of a subgrid in the order of a box loop. -/
def cellList (s : Subgrid) : List Cell := boxLoopI0 s.ix s.iy s.iz s.nx s.ny s.nz

@[simp] theorem mem_cellList : c ∈ cellList s ↔ c ∈ s.cells := by
  rw [Subregion.mem_cells_iff]
  exact mem_boxLoopI0

theorem cellList_nodup (s : Subgrid) : (cellList s).Nodup := boxLoopI0_nodup

theorem cellList_eq_nil (hs : ¬ s.NonEmpty) : cellList s = [] := by
  rw [List.eq_nil_iff_forall_not_mem]
  intro c hc
  rw [mem_cellList, cells_eq_empty hs] at hc
  exact Finset.notMem_empty c hc

/-- The running index of a loop over a subgrid, in a data array of any size. -/
theorem boxLoopI1_cells (s ds : Subgrid) : boxLoopI1 s.ix s.iy s.iz s.nx s.ny s.nz 0 ds.nx ds.ny 1 1 1 =
    (cellList s).map fun c => (c, cellIndex ds c - subvectorEltIndex ds s.ix s.iy s.iz) := by
  by_cases hs : s.NonEmpty
  · obtain ⟨hx, hy, hz⟩ := hs
    rw [boxLoopI1_eq hx.le hy.le hz.le]
    apply List.map_congr_left
    intro c _
    unfold cellIndex subvectorEltIndex
    rw [Prod.mk.injEq]
    refine ⟨rfl, ?_⟩
    ring
  · unfold boxLoopI1
    rw [boxLoop_eq_nil hs, cellList_eq_nil hs, List.map_nil]

/-- What is read at the running index is the value of the cell. -/
theorem data_cellIndex (v : Subvector α) (s : Subgrid) (c : Cell) :
    v.data (subvectorEltIndex v.dataSpace s.ix s.iy s.iz +
      (cellIndex v.dataSpace c - subvectorEltIndex v.dataSpace s.ix s.iy s.iz)) = v.get c := by
  rw [add_sub_cancel]
  rfl

theorem points_eq_cellList (hs : s.UnitStride) : s.points = cellList s := by
  obtain ⟨hx, hy, hz⟩ := hs
  rw [points_eq_map, hx, hy, hz]
  simp only [mul_one, add_sub_cancel]
  exact List.map_id _

end Cells

theorem foldl_boxLoopI1 {β : Type*} (box ds : Subregion) (f : β → ℤ → β) (d : β) :
    (boxLoopI1 box.ix box.iy box.iz box.nx box.ny box.nz 0 ds.nx ds.ny box.sx box.sy box.sz).foldl (fun d i => f d i.2) d =
      box.points.foldl (fun d c => f d (cellIndex ds c - cellIndex ds box.corner)) d := by
  have hmap := congrArg (fun l : List ℤ => l.foldl f d) (boxLoopI1_index box ds)
  simp only [List.foldl_map] at hmap
  exact hmap

theorem foldl_boxLoopI2 {β : Type*} (box ds ms : Subregion) (f : β → ℤ × ℤ → β) (d : β) :
    (boxLoopI2 box.ix box.iy box.iz box.nx box.ny box.nz 0 ds.nx ds.ny box.sx box.sy box.sz
      0 ms.nx ms.ny box.sx box.sy box.sz).foldl (fun d i => f d i.2) d =
      box.points.foldl (fun d c => f d (cellIndex ds c - cellIndex ds box.corner, cellIndex ms c - cellIndex ms box.corner))
        d := by
  have hmap := congrArg (fun l : List (ℤ × ℤ) => l.foldl f d) (boxLoopI2_index box ds ms)
  simp only [List.foldl_map] at hmap
  exact hmap

/-- Writes to the cells of a list, each of which reads no cell that another one writes. -/
theorem foldl_cells {α : Type} {ds : Subgrid} {l : List Cell} (hl : l.Nodup) (hds : ∀ c ∈ l, c ∈ ds.cells)
    {v : Cell → (ℤ → α) → α} (hval : ∀ c ∈ l, ∀ d d' : ℤ → α, d (cellIndex ds c) = d' (cellIndex ds c) →
      (∀ e ∈ ds.cells, e ∉ l → d (cellIndex ds e) = d' (cellIndex ds e)) → v c d = v c d') (d : ℤ → α) {c : Cell}
    (hc : c ∈ ds.cells) :
    (l.foldl (fun d c => Function.update d (cellIndex ds c) (v c d)) d) (cellIndex ds c) =
      if c ∈ l then v c d else d (cellIndex ds c) := by
  have hinj : ∀ {e}, e ∈ ds.cells → cellIndex ds e ∈ l.map (cellIndex ds) → e ∈ l := by
    intro e he hmem
    obtain ⟨f, hf, hfe⟩ := List.mem_map.mp hmem
    rw [← cellIndex_inj (hds f hf) he hfe]
    exact hf
  split_ifs with hmem
  · apply foldl_update_of_mem
    · exact List.Nodup.map_on (fun e he f hf hef => cellIndex_inj (hds e he) (hds f hf) hef) hl
    · intro e he d d' hd
      apply hval e he d d' (hd _ (Or.inl rfl))
      intro f hf hfl
      exact hd _ (Or.inr fun hm => hfl (hinj hf hm))
    · exact hmem
  · exact foldl_update_of_notMem (fun hm => hmem (hinj hc hm)) d

end ParFlow
