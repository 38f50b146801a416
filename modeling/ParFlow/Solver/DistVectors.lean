import Mathlib.LinearAlgebra.Matrix.DotProduct
import Mathlib.LinearAlgebra.Matrix.ToLin
import ParFlow.Solver.Krylov
import ParFlow.Solver.Matvec

/-! The routines on all processes compute with the values on the cells of the grid: what one process adds, scales or
multiplies is its part of a vector, and the exchanges bring the parts together. -/

namespace ParFlow

open Cover Subregion PointLoop IntLoop Krylov

/-! ## Loops over a box -/

section Box

variable {box : Subregion} {x y : Subvector ℚ} {c : Cell}

theorem zipBox_get (f : ℚ → ℚ → ℚ) (hunit : box.UnitStride) (hx : x.dataSpace = y.dataSpace)
    (hsub : box.cells ⊆ y.dataSpace.cells) (hc : c ∈ y.dataSpace.cells) :
    (zipBox f x box y).get c = if c ∈ box.cells then f (x.get c) (y.get c) else y.get c := by
  have hloop := foldl_boxLoopI1 box y.dataSpace (fun (data : ℤ → ℚ) vi => Function.update data
    (cellIndex y.dataSpace box.corner + vi) (f (x.data (cellIndex x.dataSpace box.corner + vi))
      (data (cellIndex y.dataSpace box.corner + vi)))) y.data
  simp only [hx, add_sub_cancel, hunit.1, hunit.2.1, hunit.2.2] at hloop
  have hcells := foldl_cells (v := fun d data => f (x.data (cellIndex y.dataSpace d)) (data (cellIndex y.dataSpace d)))
    (points_nodup hunit.strided) (fun d hd => hsub ((mem_points_iff hunit).mp hd))
    (fun d _ data data' hd _ => congrArg (f _) hd) y.data hc
  simp only [mem_points_iff hunit] at hcells
  rw [← hloop] at hcells
  unfold zipBox Subvector.get
  simp only [hx]
  exact hcells

theorem copyBox_get (hunit : box.UnitStride) (hsub : box.cells ⊆ y.dataSpace.cells)
    (hc : c ∈ y.dataSpace.cells) : (copyBox x box y).get c = if c ∈ box.cells then x.get c else y.get c := by
  have hloop := foldl_boxLoopI2 box x.dataSpace y.dataSpace (fun (data : ℤ → ℚ) i => Function.update data
    (cellIndex y.dataSpace box.corner + i.2) (x.data (cellIndex x.dataSpace box.corner + i.1))) y.data
  simp only [add_sub_cancel, hunit.1, hunit.2.1, hunit.2.2] at hloop
  have hcells := foldl_cells (v := fun d _ => x.data (cellIndex x.dataSpace d))
    (points_nodup hunit.strided) (fun d hd => hsub ((mem_points_iff hunit).mp hd)) (fun d _ data data' _ _ => rfl) y.data hc
  simp only [mem_points_iff hunit] at hcells
  rw [← hloop] at hcells
  exact hcells

theorem innerBox_eq (hx : x.dataSpace = y.dataSpace) (s : Subgrid) (result : ℚ) :
    innerBox x y s result = result + ∑ c ∈ s.cells, x.get c * y.get c := by
  have hget : ∀ c, x.data (cellIndex y.dataSpace c) = x.get c := by
    intro c
    rw [← hx]
    rfl
  have hsum : ∀ (l : List Cell) (result : ℚ), l.foldl (fun result c => result + y.get c * x.get c) result =
      result + (l.map fun c => x.get c * y.get c).sum := by
    intro l
    induction l with
    | nil => simp
    | cons c l ih =>
      intro result
      rw [List.foldl_cons, ih, List.map_cons, List.sum_cons]
      ring
  unfold innerBox
  simp only [hx, boxLoopI1_cells, List.foldl_map, add_sub_cancel, hget]
  refine (hsum (cellList s) result).trans ?_
  rw [← List.sum_toFinset _ (cellList_nodup s)]
  congr 2

end Box

/-! ## Values on the grid -/

namespace Layout

variable {L : Layout} {s t : Subgrid} {c : Cell} {g : ℤ} {x y : DistVector}

def gridCells (L : Layout) : Finset Cell := L.allSubgrids.toFinset.biUnion cells

theorem mem_gridCells : c ∈ L.gridCells ↔ ∃ s ∈ L.allSubgrids, c ∈ s.cells := by
  simp [gridCells]

/-- The value that the owner of a cell has. -/
def value (L : Layout) (x : DistVector) (c : L.gridCells) : ℚ :=
  match L.allSubgrids.find? fun t => (c : Cell) ∈ t.cells with
  | some t => (x t.process).get c
  | none => 0

theorem find?_owner (ht : t ∈ L.allSubgrids) (hc : c ∈ t.cells) : (L.allSubgrids.find? fun t => c ∈ t.cells) = some t := by
  obtain ⟨u, hu⟩ := Option.isSome_iff_exists.mp (List.find?_isSome.mpr ⟨t, ht, by simpa using hc⟩ :
    (L.allSubgrids.find? fun t => c ∈ t.cells).isSome)
  have hcu : c ∈ u.cells := by simpa using List.find?_some hu
  rw [hu, eq_of_mem ht (List.mem_of_find?_eq_some hu) hc hcu]

theorem value_eq (hs : s ∈ L.allSubgrids) {c : L.gridCells} (hc : (c : Cell) ∈ s.cells) :
    L.value x c = (x s.process).get c := by
  unfold value
  rw [find?_owner hs hc]

/-- An equation for the values holds when it holds on each subgrid. -/
theorem value_ext {u : L.gridCells → ℚ} (h : ∀ s ∈ L.allSubgrids, ∀ c : L.gridCells, (c : Cell) ∈ s.cells →
    (x s.process).get c = u c) : L.value x = u := by
  funext c
  obtain ⟨s, hs, hc⟩ := mem_gridCells.mp c.2
  rw [value_eq hs hc, h s hs c hc]

/-- The subvectors have `g` ghost layers. -/
def HasGhosts (L : Layout) (g : ℤ) (x : DistVector) : Prop := ∀ s ∈ L.allSubgrids, (x s.process).dataSpace = ghostSpace s g

/-- The value at a cell, with zeros around the grid. -/
def extend (L : Layout) (u : L.gridCells → ℚ) (c : Cell) : ℚ := if hc : c ∈ L.gridCells then u ⟨c, hc⟩ else 0

theorem extend_add (u v : L.gridCells → ℚ) : L.extend (u + v) = L.extend u + L.extend v := by
  funext c
  unfold extend
  by_cases hc : c ∈ L.gridCells <;> simp [hc]

theorem extend_smul (a : ℚ) (u : L.gridCells → ℚ) : L.extend (a • u) = a • L.extend u := by
  funext c
  unfold extend
  by_cases hc : c ∈ L.gridCells <;> simp [hc]

theorem termSum_add (terms : List (Cell × ℕ)) (A : Submatrix) (u v : Cell → ℚ) (c : Cell) :
    termSum terms A (u + v) c = termSum terms A u c + termSum terms A v c := by
  unfold termSum
  rw [← List.sum_map_add]
  simp only [Pi.add_apply, mul_add]

theorem termSum_smul (terms : List (Cell × ℕ)) (A : Submatrix) (a : ℚ) (u : Cell → ℚ) (c : Cell) :
    termSum terms A (a • u) c = a * termSum terms A u c := by
  unfold termSum
  rw [← List.sum_map_mul_left]
  simp only [Pi.smul_apply, smul_eq_mul, mul_left_comm]

/-- The row of a cell, which its owner has. -/
def gridRow (L : Layout) (stencil : StencilShape) (A : ℤ → Submatrix) (u : L.gridCells → ℚ) (c : L.gridCells) : ℚ :=
  match L.allSubgrids.find? fun t => (c : Cell) ∈ t.cells with
  | some t => termSum stencil.zipIdx (A t.process) (L.extend u) c
  | none => 0

section Row

variable {stencil : StencilShape} {A : ℤ → Submatrix}

theorem gridRow_eq (u : L.gridCells → ℚ) (hs : s ∈ L.allSubgrids) {c : L.gridCells} (hc : (c : Cell) ∈ s.cells) :
    L.gridRow stencil A u c = termSum stencil.zipIdx (A s.process) (L.extend u) c := by
  unfold gridRow
  rw [find?_owner hs hc]

theorem gridRow_add (u v : L.gridCells → ℚ) :
    L.gridRow stencil A (u + v) = L.gridRow stencil A u + L.gridRow stencil A v := by
  funext c
  obtain ⟨s, hs, hc⟩ := mem_gridCells.mp c.2
  rw [Pi.add_apply, gridRow_eq _ hs hc, gridRow_eq _ hs hc, gridRow_eq _ hs hc, extend_add, termSum_add]

theorem gridRow_smul (a : ℚ) (u : L.gridCells → ℚ) : L.gridRow stencil A (a • u) = a • L.gridRow stencil A u := by
  funext c
  obtain ⟨s, hs, hc⟩ := mem_gridCells.mp c.2
  rw [Pi.smul_apply, gridRow_eq _ hs hc, gridRow_eq _ hs hc, extend_smul, termSum_smul, smul_eq_mul]

/-- The matrix of which each process has the rows of its cells. -/
def gridMatrix (L : Layout) (stencil : StencilShape) (A : ℤ → Submatrix) : (L.gridCells → ℚ) →ₗ[ℚ] (L.gridCells → ℚ) where
  toFun := L.gridRow stencil A
  map_add' := gridRow_add
  map_smul' := gridRow_smul

end Row

/-- What the routines need of the grid and of the matrix: a subgrid for each process, and no coefficient that leads out of
the grid. -/
structure OnGrid (L : Layout) (numProcs g : ℤ) (stencil : StencilShape) (A : ℤ → Submatrix) : Prop where
  onePerProcess : L.OnePerProcess
  process : ∀ s ∈ L.allSubgrids, 0 ≤ s.process ∧ s.process < numProcs
  unitStride : ∀ s ∈ L.allSubgrids, s.UnitStride
  ghost : 1 ≤ g
  stencil_mem : ∀ v ∈ stencil, v = 0 ∨ v ∈ updateAllShape
  matrix : ∀ s ∈ L.allSubgrids, (A s.process).dataSpace.UnitStride
  boundary : ∀ s ∈ L.allSubgrids, ∀ c ∈ s.cells, ∀ e ∈ stencil.zipIdx, c + e.1 ∉ L.gridCells → (A s.process).coeff e.2 c = 0

section Routines

variable {numProcs : ℤ} {stencil : StencilShape} {A : ℤ → Submatrix} {method : ℤ → PackMethod}
    (h : L.OnGrid numProcs g stencil A)

include h

theorem OnGrid.own_eq (hs : s ∈ L.allSubgrids) : L.own s.process = [s] :=
  own_eq_of_onePerProcess h.onePerProcess (mem_own.mpr ⟨hs, rfl⟩)

theorem OnGrid.cells_subset (hs : s ∈ L.allSubgrids) (hy : L.HasGhosts g y) : s.cells ⊆ (y s.process).dataSpace.cells := by
  intro c hc
  rw [hy s hs]
  exact mem_ghostSpace_of_mem (by linarith [h.ghost]) hc

/-- A routine that writes `f` to the cells of each subgrid. -/
theorem OnGrid.onEachProcess {body : ℤ → Subgrid → Subvector ℚ → Subvector ℚ} {f : L.gridCells → ℚ} (hy : L.HasGhosts g y)
    (hbody : ∀ s ∈ L.allSubgrids, (body s.process s (y s.process)).dataSpace = (y s.process).dataSpace ∧
      ∀ c : L.gridCells, (c : Cell) ∈ s.cells → (body s.process s (y s.process)).get c = f c) :
    L.HasGhosts g (onEachProcess L body y) ∧ L.value (onEachProcess L body y) = f := by
  have hprocess : ∀ s ∈ L.allSubgrids, ParFlow.onEachProcess L body y s.process = body s.process s (y s.process) := by
    intro s hs
    unfold ParFlow.onEachProcess
    rw [h.own_eq hs, List.foldl_cons, List.foldl_nil]
  refine ⟨fun s hs => ?_, value_ext fun s hs c hc => ?_⟩
  · rw [hprocess s hs, (hbody s hs).1, hy s hs]
  · rw [hprocess s hs, (hbody s hs).2 c hc]

/-- What a process adds up. -/
theorem OnGrid.innerProd_own (hx : L.HasGhosts g x) (hy : L.HasGhosts g y) (p : ℤ) :
    (L.own p).foldl (fun result s => innerBox (x p) (y p) s result) 0 =
      ∑ s ∈ L.allSubgrids.toFinset with s.process = p, ∑ c ∈ s.cells, (x s.process).get c * (y s.process).get c := by
  by_cases hp : ∃ s ∈ L.allSubgrids, s.process = p
  · obtain ⟨s, hs, rfl⟩ := hp
    have hfilter : (L.allSubgrids.toFinset.filter fun t => t.process = s.process) = {s} := by
      ext t
      rw [Finset.mem_filter, List.mem_toFinset, Finset.mem_singleton, ← mem_own, h.own_eq hs, List.mem_singleton]
    rw [h.own_eq hs, hfilter, Finset.sum_singleton, List.foldl_cons, List.foldl_nil,
      innerBox_eq ((hx s hs).trans (hy s hs).symm), zero_add]
  · have hown : L.own p = [] := by
      rw [List.eq_nil_iff_forall_not_mem]
      exact fun s hs => hp ⟨s, mem_own.mp hs⟩
    rw [hown, List.foldl_nil, Finset.filter_eq_empty_iff.mpr fun s hs hsp => hp ⟨s, List.mem_toFinset.mp hs, hsp⟩,
      Finset.sum_empty]

theorem OnGrid.innerProd (hx : L.HasGhosts g x) (hy : L.HasGhosts g y) :
    distInnerProd L numProcs x y = dotProduct (L.value x) (L.value y) := by
  have hdisjoint : Set.PairwiseDisjoint (↑L.allSubgrids.toFinset) cells := by
    intro s hs t ht hne
    rw [Function.onFun, Finset.disjoint_left]
    intro c hcs hct
    exact hne (eq_of_mem (List.mem_toFinset.mp hs) (List.mem_toFinset.mp ht) hcs hct)
  have hvalue : ∀ s ∈ L.allSubgrids.toFinset, ∑ c ∈ s.cells, (x s.process).get c * (y s.process).get c =
      ∑ c ∈ s.cells, if hc : c ∈ L.gridCells then L.value x ⟨c, hc⟩ * L.value y ⟨c, hc⟩ else 0 := by
    intro s hs
    refine Finset.sum_congr rfl fun c hc => ?_
    have hs' := List.mem_toFinset.mp hs
    rw [dif_pos (mem_gridCells.mpr ⟨s, hs', hc⟩), value_eq hs' hc, value_eq hs' hc]
  calc distInnerProd L numProcs x y
      = ∑ p ∈ (upto 0 numProcs).toFinset, ∑ s ∈ L.allSubgrids.toFinset with s.process = p,
          ∑ c ∈ s.cells, (x s.process).get c * (y s.process).get c := by
        unfold distInnerProd
        rw [List.sum_toFinset _ (upto_nodup 0 numProcs)]
        simp only [h.innerProd_own hx hy]
    _ = ∑ s ∈ L.allSubgrids.toFinset, ∑ c ∈ s.cells, (x s.process).get c * (y s.process).get c := by
        refine Finset.sum_fiberwise_of_maps_to (fun s hs => ?_) _
        rw [List.mem_toFinset, mem_upto]
        exact h.process s (List.mem_toFinset.mp hs)
    _ = ∑ c ∈ L.gridCells, if hc : c ∈ L.gridCells then L.value x ⟨c, hc⟩ * L.value y ⟨c, hc⟩ else 0 := by
        rw [Finset.sum_congr rfl hvalue]
        exact (Finset.sum_biUnion hdisjoint).symm
    _ = dotProduct (L.value x) (L.value y) := by
        rw [Finset.sum_dite_of_true fun c hc => hc]
        rfl

/-- The row of a cell, with the values that its owner sees. -/
theorem OnGrid.termSum_eq (hs : s ∈ L.allSubgrids) {c : Cell} (hc : c ∈ s.cells) :
    termSum stencil.zipIdx (A s.process) (L.valueFor x s) c =
      termSum stencil.zipIdx (A s.process) (L.extend (L.value x)) c := by
  unfold termSum
  congr 1
  refine List.map_congr_left fun e he => ?_
  by_cases hmem : c + e.1 ∈ L.gridCells
  · obtain ⟨t, ht, hct⟩ := mem_gridCells.mp hmem
    rw [valueFor_of_mem ht hct, extend, dif_pos hmem, value_eq ht hct]
  · rw [h.boundary s hs c hc e he hmem, zero_mul, zero_mul]

theorem OnGrid.inFlight (hm : ∀ p, (method p).Sized) (E : Exchanges L g method) (n : ℕ) (hx : L.HasGhosts g x)
    (hs : s ∈ L.allSubgrids) : L.InFlight updateAllShape x s (E.during n x s.process) := by
  obtain ⟨σ, hσ, hphase, hseen⟩ := E.inFlight n x s hs
  rw [hseen]
  exact hσ.inFlight h.onePerProcess h.ghost hm hx hs hphase

theorem OnGrid.delivered (hm : ∀ p, (method p).Sized) (E : Exchanges L g method) (n : ℕ) (hx : L.HasGhosts g x)
    (hs : s ∈ L.allSubgrids) : L.Delivered updateAllShape x s (E.after n x s.process) := by
  obtain ⟨σ, hσ, hfin, hseen⟩ := E.finished n x s hs
  rw [hseen]
  exact hσ.delivered h.onePerProcess h.ghost hm hx hs hfin

/-- The exchange leaves the values of the grid. -/
theorem OnGrid.after_value (hm : ∀ p, (method p).Sized) (E : Exchanges L g method) (n : ℕ) (hx : L.HasGhosts g x) :
    L.HasGhosts g (E.after n x) ∧ L.value (E.after n x) = L.value x := by
  have hdelivered := fun s (hs : s ∈ L.allSubgrids) => h.delivered hm E n hx hs
  have hds : ∀ s ∈ L.allSubgrids, (E.after n x s.process).dataSpace = (x s.process).dataSpace := fun s hs =>
    (hdelivered s hs).dataSpace
  refine ⟨fun s hs => (hds s hs).trans (hx s hs), value_ext fun s hs c hc => ?_⟩
  rw [value_eq hs hc, (hdelivered s hs).others c ?_ fun hneed => hneed.1 hc]
  rw [hds s hs]
  exact h.cells_subset hs hx hc

/-- The product on the cells of a process, for a factor that is not zero. -/
theorem OnGrid.matvec_get (hs : s ∈ L.allSubgrids) {xDuring xAfter : Subvector ℚ} (hx : L.HasGhosts g x)
    (hy : L.HasGhosts g y) (hduring : L.InFlight updateAllShape x s xDuring) (hafter : L.Delivered updateAllShape x s xAfter)
    {alpha : ℚ} (ha : alpha ≠ 0) (beta : ℚ) :
    let y' := matvec alpha stencil (fun _ => A s.process) (gridOn L.allSubgrids s.process) (fun _ => xDuring)
      (fun _ => xAfter) beta (fun _ => y s.process) 0
    y'.dataSpace = ghostSpace s g ∧ ∀ c ∈ s.cells,
      y'.get c = alpha * termSum stencil.zipIdx (A s.process) (L.valueFor x s) c + beta * (y s.process).get c := by
  intro y'
  have hsub := h.cells_subset hs hy
  have hxd : xDuring.dataSpace = ghostSpace s g := hduring.dataSpace.trans (hx s hs)
  have hxa : xAfter.dataSpace = ghostSpace s g := hafter.dataSpace.trans (hx s hs)
  obtain ⟨hind, hdep, hindUnit, hdepUnit⟩ := compute_exact updateAll_neg (mem_own.mpr ⟨hs, rfl⟩) (h.unitStride s hs)
  -- `y` is scaled, the first region is added, then the second one
  obtain ⟨hds₀, hget₀⟩ := forSubgrids_get (initY (beta / alpha)) (y := fun _ => y s.process) (f := fun v => beta / alpha * v)
    (initY_get _ (h.unitStride s hs) hsub)
  have hy' : y' = _ := matvec_stages (h.own_eq hs) ha beta (y s.process)
  generalize forSubgrids (initY (beta / alpha)) [s] (fun _ => y s.process) 0 = y₀ at hds₀ hget₀ hy'
  obtain ⟨hds₁, hin₁, hout₁⟩ := matvecBoxes_get (A := A s.process) (x := xDuring) (y := y₀) alpha stencil hind hindUnit
    (h.matrix s hs) (hxd.trans (hds₀.trans (hy s hs)).symm) fun c hc => hds₀ ▸ hsub hc.1
  generalize (L.indArray updateAllShape s.process s).foldl (matvecBox alpha stencil (A s.process) xDuring) y₀ = y₁
    at hds₁ hin₁ hout₁ hy'
  obtain ⟨hds₂, hin₂, hout₂⟩ := matvecBoxes_get (A := A s.process) (x := xAfter) (y := y₁) alpha stencil hdep hdepUnit
    (h.matrix s hs) (hxa.trans ((hds₁.trans hds₀).trans (hy s hs)).symm) fun c hc => (hds₁.trans hds₀) ▸ hsub hc.1
  rw [← hy'] at hds₂ hin₂ hout₂
  refine ⟨hds₂.trans (hds₁.trans (hds₀.trans (hy s hs))), fun c hc => ?_⟩
  have hscaled : alpha * (beta / alpha * (y s.process).get c) = beta * (y s.process).get c := by
    rw [← mul_assoc, mul_div_cancel₀ _ ha]
  by_cases hhalo : ∃ n ∈ L.allSubgrids, Halo updateAllShape n c
  · obtain ⟨n, hn, hhn⟩ := hhalo
    rw [hin₂ c ⟨hc, n, hn, hhn⟩, hout₁ c (hds₀ ▸ hsub hc) fun hno => hno.2 n hn hhn, hget₀ c (hsub hc), if_pos hc,
      termSum_after hs h.stencil_mem h.ghost hc hafter hxa, mul_add, hscaled, add_comm]
  · have hno : ∀ n ∈ L.allSubgrids, ¬ Halo updateAllShape n c := fun n hn hhn => hhalo ⟨n, hn, hhn⟩
    rw [hout₂ c (hds₁ ▸ hds₀ ▸ hsub hc) fun hdep => hhalo hdep.2, hin₁ c ⟨hc, hno⟩, hget₀ c (hsub hc), if_pos hc,
      termSum_during hs h.stencil_mem h.ghost hc hduring hxd hno, mul_add, hscaled, add_comm]

theorem OnGrid.matvec (hm : ∀ p, (method p).Sized) (E : Exchanges L g method) (n : ℕ) {alpha : ℚ} (ha : alpha ≠ 0) (beta : ℚ)
    (hx : L.HasGhosts g x) (hy : L.HasGhosts g y) : L.HasGhosts g (distMatvec L E stencil A n alpha x beta y).2 ∧
      L.value (distMatvec L E stencil A n alpha x beta y).2 =
        alpha • L.gridMatrix stencil A (L.value x) + beta • L.value y := by
  have hget := fun s (hs : s ∈ L.allSubgrids) => h.matvec_get hs hx hy (h.inFlight hm E n hx hs) (h.delivered hm E n hx hs)
    ha beta
  refine ⟨fun s hs => (hget s hs).1, value_ext fun s hs c hc => ?_⟩
  refine ((hget s hs).2 c hc).trans ?_
  rw [h.termSum_eq hs hc, Pi.add_apply, Pi.smul_apply, Pi.smul_apply, smul_eq_mul, smul_eq_mul, value_eq hs hc]
  congr 2
  exact (gridRow_eq _ hs hc).symm

/-- The routines are linear algebra with the values on the cells of the grid, in any order of the messages. -/
theorem OnGrid.represents (hm : ∀ p, (method p).Sized) (E : Exchanges L g method)
    (precond : DistVector → DistVector → DistVector) :
    Represents (distRoutines L numProcs E stencil A precond) (L.HasGhosts g) L.value (dotProductBilin ℚ ℚ)
      (L.gridMatrix stencil A) := by
  constructor
  · intro v hv
    refine h.onEachProcess hv fun s hs => ⟨rfl, fun c hc => ?_⟩
    have hsub := h.cells_subset hs hv
    rw [mapBox_get _ (h.unitStride s hs) hsub (hsub hc), if_pos hc]
    rfl
  · intro x y hx hy
    refine h.onEachProcess hy fun s hs => ⟨rfl, fun c hc => ?_⟩
    have hsub := h.cells_subset hs hy
    rw [copyBox_get (h.unitStride s hs) hsub (hsub hc), if_pos hc, value_eq hs hc]
  · intro a y hy
    refine h.onEachProcess hy fun s hs => ⟨rfl, fun c hc => ?_⟩
    have hsub := h.cells_subset hs hy
    rw [mapBox_get _ (h.unitStride s hs) hsub (hsub hc), if_pos hc, Pi.smul_apply, smul_eq_mul, mul_comm, value_eq hs hc]
  · intro a x y hx hy
    refine h.onEachProcess hy fun s hs => ⟨rfl, fun c hc => ?_⟩
    have hsub := h.cells_subset hs hy
    rw [zipBox_get _ (h.unitStride s hs) ((hx s hs).trans (hy s hs).symm) hsub (hsub hc), if_pos hc, Pi.add_apply,
      Pi.smul_apply, smul_eq_mul, value_eq hs hc, value_eq hs hc]
  · intro x y hx hy
    exact h.innerProd hx hy
  · intro n a b x y ha hx hy
    refine ⟨?_, h.matvec hm E n ha b hx hy⟩
    show L.HasGhosts g (if a = 0 then x else E.after n x) ∧ L.value (if a = 0 then x else E.after n x) = _
    rw [if_neg ha]
    exact h.after_value hm E n hx

end Routines

end Layout

end ParFlow
