import ParFlow.Solver.MatrixDefs
import ParFlow.Comm.HaloSpec

/-! The product that is computed in two passes during an exchange is the plain one. -/

namespace ParFlow

open Cover Subregion PointLoop

/-! ## Loops over a box -/

theorem submatrixElt_eq {A : Submatrix} (h : A.dataSpace.UnitStride) (s : ℕ) (c : Cell) :
    submatrixElt A s c.1 c.2.1 c.2.2 = A.dataIndex s + cellIndex A.dataSpace c := by
  obtain ⟨hx, hy, hz⟩ := h
  unfold submatrixElt submatrixEltIndex cellIndex subvectorEltIndex
  rw [hx, hy, hz, Int.tdiv_one, Int.tdiv_one, Int.tdiv_one]

/-- The coefficient of a stencil element at a cell. -/
def Submatrix.coeff (A : Submatrix) (s : ℕ) (c : Cell) : ℚ := A.data (submatrixElt A s c.1 c.2.1 c.2.2)

section Box

variable {box : Subregion} {y : Subvector ℚ} {c : Cell}

theorem mapBox_get (f : ℚ → ℚ) (hunit : box.UnitStride) (hsub : box.cells ⊆ y.dataSpace.cells) (hc : c ∈ y.dataSpace.cells) :
    (mapBox f box y).get c = if c ∈ box.cells then f (y.get c) else y.get c := by
  have hloop := foldl_boxLoopI1 box y.dataSpace (fun (data : ℤ → ℚ) vi => Function.update data
    (cellIndex y.dataSpace box.corner + vi) (f (data (cellIndex y.dataSpace box.corner + vi)))) y.data
  simp only [add_sub_cancel, hunit.1, hunit.2.1, hunit.2.2] at hloop
  have hcells := foldl_cells (points_nodup hunit.strided) (fun d hd => hsub ((mem_points_iff hunit).mp hd))
    (fun d _ data data' hd _ => congrArg f hd) y.data hc
  simp only [mem_points_iff hunit] at hcells
  rw [← hloop] at hcells
  exact hcells

variable {A : Submatrix} {x : Subvector ℚ}

theorem addTerm_get (e : Cell × ℕ) (hunit : box.UnitStride) (hA : A.dataSpace.UnitStride) (hx : x.dataSpace = y.dataSpace)
    (hsub : box.cells ⊆ y.dataSpace.cells) (hc : c ∈ y.dataSpace.cells) : (addTerm A x box y e).get c =
      if c ∈ box.cells then y.get c + A.coeff e.2 c * x.get (c + e.1) else y.get c := by
  have hloop := foldl_boxLoopI2 box y.dataSpace A.dataSpace (fun (data : ℤ → ℚ) i => Function.update data
    (cellIndex y.dataSpace box.corner + i.1) (data (cellIndex y.dataSpace box.corner + i.1) +
      A.data (submatrixElt A e.2 box.ix box.iy box.iz + i.2) * x.data (cellIndex x.dataSpace (box.corner + e.1) + i.1))) y.data
  have hcoeff : ∀ d : Cell, submatrixElt A e.2 box.ix box.iy box.iz +
      (cellIndex A.dataSpace d - cellIndex A.dataSpace box.corner) = submatrixElt A e.2 d.1 d.2.1 d.2.2 := by
    intro d
    rw [submatrixElt_eq hA, show submatrixElt A e.2 box.ix box.iy box.iz = _ from submatrixElt_eq hA e.2 box.corner]
    ring
  have hvalue : ∀ d : Cell, cellIndex x.dataSpace (box.corner + e.1) +
      (cellIndex y.dataSpace d - cellIndex y.dataSpace box.corner) = cellIndex x.dataSpace (d + e.1) := by
    intro d
    rw [← hx, ← cellIndex_add x.dataSpace d e.1 box.corner]
    ring
  simp only [add_sub_cancel, hcoeff, hvalue, hunit.1, hunit.2.1, hunit.2.2] at hloop
  have hcells := foldl_cells (v := fun d data => data (cellIndex y.dataSpace d) +
      A.data (submatrixElt A e.2 d.1 d.2.1 d.2.2) * x.data (cellIndex x.dataSpace (d + e.1)))
    (points_nodup hunit.strided) (fun d hd => hsub ((mem_points_iff hunit).mp hd))
    (fun d _ data data' hd _ => by rw [hd]) y.data hc
  simp only [mem_points_iff hunit] at hcells
  rw [← hloop] at hcells
  unfold addTerm
  rw [hunit.1, hunit.2.1, hunit.2.2]
  exact hcells

/-- The terms of some of the stencil elements at a cell. -/
def termSum (terms : List (Cell × ℕ)) (A : Submatrix) (x : Cell → ℚ) (c : Cell) : ℚ :=
  (terms.map fun e => A.coeff e.2 c * x (c + e.1)).sum

theorem addTerms_get (terms : List (Cell × ℕ)) (hunit : box.UnitStride) (hA : A.dataSpace.UnitStride)
    (hx : x.dataSpace = y.dataSpace) (hsub : box.cells ⊆ y.dataSpace.cells) :
    (terms.foldl (addTerm A x box) y).dataSpace = y.dataSpace ∧ ∀ c ∈ y.dataSpace.cells,
      (terms.foldl (addTerm A x box) y).get c = if c ∈ box.cells then y.get c + termSum terms A x.get c else y.get c := by
  induction terms generalizing y with
  | nil =>
    refine ⟨rfl, ?_⟩
    intro c _
    simp [termSum]
  | cons e terms ih =>
    obtain ⟨hds, hget⟩ := ih (y := addTerm A x box y e) hx hsub
    refine ⟨hds, ?_⟩
    intro c hc
    rw [List.foldl_cons, hget c hc, addTerm_get e hunit hA hx hsub hc]
    split_ifs with hbox
    · rw [termSum, termSum, List.map_cons, List.sum_cons, add_assoc]
    · rfl

theorem matvecBox_get (alpha : ℚ) (stencil : StencilShape) (hunit : box.UnitStride) (hA : A.dataSpace.UnitStride)
    (hx : x.dataSpace = y.dataSpace) (hsub : box.cells ⊆ y.dataSpace.cells) :
    (matvecBox alpha stencil A x y box).dataSpace = y.dataSpace ∧ ∀ c ∈ y.dataSpace.cells,
      (matvecBox alpha stencil A x y box).get c =
        if c ∈ box.cells then alpha * (y.get c + termSum stencil.zipIdx A x.get c) else y.get c := by
  obtain ⟨hds, hget⟩ := addTerms_get stencil.zipIdx hunit hA hx hsub
  unfold matvecBox
  by_cases ha : alpha = 1
  · simp only [ha, ne_eq, not_true, if_false, one_mul]
    exact ⟨hds, hget⟩
  · simp only [ha, ne_eq, not_false_iff, if_true]
    refine ⟨hds, ?_⟩
    intro c hc
    rw [mapBox_get _ hunit (hds ▸ hsub) (hds ▸ hc), hget c hc]
    split_ifs
    · rw [mul_comm]
    · rfl

/-- The boxes of a region are disjoint, so that the terms are added and the values scaled once. -/
theorem matvecBoxes_get (alpha : ℚ) (stencil : StencilShape) {boxes : SubgridArray} {cover : Set Cell}
    (hex : Exact cells boxes cover) (hunit : ∀ b ∈ boxes, b.UnitStride) (hA : A.dataSpace.UnitStride)
    (hx : x.dataSpace = y.dataSpace) (hsub : ∀ c ∈ cover, c ∈ y.dataSpace.cells) :
    (boxes.foldl (matvecBox alpha stencil A x) y).dataSpace = y.dataSpace ∧
      (∀ c ∈ cover, (boxes.foldl (matvecBox alpha stencil A x) y).get c =
        alpha * (y.get c + termSum stencil.zipIdx A x.get c)) ∧
      ∀ c ∈ y.dataSpace.cells, c ∉ cover → (boxes.foldl (matvecBox alpha stencil A x) y).get c = y.get c := by
  have hpieces := foldl_pieces (matvecBox alpha stencil A x) Subvector.get cells
    (fun c v => alpha * (v + termSum stencil.zipIdx A x.get c)) (fun z => z.dataSpace = y.dataSpace)
    (D := {c | c ∈ y.dataSpace.cells}) hex.1 (by
      intro b hb z hz
      have hbsub : b.cells ⊆ z.dataSpace.cells := by
        intro c hc
        rw [hz]
        exact hsub c ((hex.mem_iff c).mp ⟨b, hb, hc⟩)
      obtain ⟨hds, hget⟩ := matvecBox_get alpha stencil (hunit b hb) hA (hx.trans hz.symm) hbsub
      exact ⟨hds.trans hz, fun c hc => hget c (by rw [hz]; exact hc)⟩) y rfl
  obtain ⟨hds, hin, hout⟩ := hpieces
  refine ⟨hds, ?_, ?_⟩
  · intro c hc
    exact hin c (hsub c hc) ((hex.mem_iff c).mpr hc)
  · intro c hc hno
    apply hout c hc
    intro b hb hcb
    exact hno ((hex.mem_iff c).mp ⟨b, hb, hcb⟩)

theorem initY_get (temp : ℚ) (hunit : box.UnitStride) (hsub : box.cells ⊆ y.dataSpace.cells) :
    (initY temp box y).dataSpace = y.dataSpace ∧ ∀ c ∈ y.dataSpace.cells,
      (initY temp box y).get c = if c ∈ box.cells then temp * y.get c else y.get c := by
  unfold initY
  by_cases h1 : temp = 1
  · simp [h1]
  · by_cases h0 : temp = 0
    · simp only [h0, ne_eq, zero_ne_one, not_false_iff, if_true, zero_mul]
      exact ⟨rfl, fun c hc => mapBox_get _ hunit hsub hc⟩
    · simp only [h1, h0, ne_eq, not_false_iff, if_true, if_false]
      refine ⟨rfl, ?_⟩
      intro c hc
      rw [mapBox_get _ hunit hsub hc, mul_comm]

end Box

/-! ## The whole product -/

theorem mem_of_nonZero {s : Subgrid} {c : Cell} (hc : c ∈ s.cells) : s.nx ≠ 0 ∧ s.ny ≠ 0 ∧ s.nz ≠ 0 := by
  rw [mem_cells_iff] at hc
  omega

/-- A process with one subgrid: the loop changes its cells when it changes those of a subgrid that is not
empty. -/
theorem forSubgrids_get (body : Subgrid → Subvector ℚ → Subvector ℚ) {f : ℚ → ℚ} {s : Subgrid} {y : ℕ → Subvector ℚ}
    (hbody : (body s (y 0)).dataSpace = (y 0).dataSpace ∧ ∀ c ∈ (y 0).dataSpace.cells,
      (body s (y 0)).get c = if c ∈ s.cells then f ((y 0).get c) else (y 0).get c) :
    (forSubgrids body [s] y 0).dataSpace = (y 0).dataSpace ∧ ∀ c ∈ (y 0).dataSpace.cells,
      (forSubgrids body [s] y 0).get c = if c ∈ s.cells then f ((y 0).get c) else (y 0).get c := by
  unfold forSubgrids
  simp only [List.zipIdx_singleton, List.foldl_cons, List.foldl_nil]
  split_ifs with hne
  · rw [Function.update_self]
    exact hbody
  · refine ⟨rfl, ?_⟩
    intro c _
    rw [if_neg fun hc => hne (mem_of_nonZero hc)]

namespace Layout

variable {L : Layout} {s : Subgrid} {x y : ℤ → Subvector ℚ} {xDuring xAfter : Subvector ℚ} {A : Submatrix}
  {stencil : StencilShape} {g : ℤ}

theorem updateAll_neg : ∀ v ∈ updateAllShape, -v ∈ updateAllShape := by decide

/-- The neighbours of a cell along the axes, and the cell itself. -/
theorem reaches_of_mem {c v : Cell} (hc : c ∈ s.cells) (hv : v = 0 ∨ v ∈ updateAllShape) :
    c + v ∈ s.cells ∨ ∃ w ∈ updateAllShape, c + v - w ∈ s.cells := by
  rcases hv with rfl | hv
  · rw [add_zero]
    exact Or.inl hc
  · exact Or.inr ⟨v, hv, by rwa [add_sub_cancel_right]⟩

theorem mem_dataSpace_add (hg : 1 ≤ g) {c v : Cell} (hc : c ∈ s.cells) (hv : v = 0 ∨ v ∈ updateAllShape) :
    c + v ∈ (ghostSpace s g).cells := by
  rcases hv with rfl | hv
  · rw [add_zero]
    exact mem_ghostSpace_of_mem (by omega) hc
  · have hreach : Reach updateAllShape 1 := by decide
    exact mem_ghostSpace_add (fun v hv => ⟨(hreach v hv).1.trans hg, (hreach v hv).2.1.trans hg, (hreach v hv).2.2.trans hg⟩)
      hc hv

theorem termSum_congr {x₁ x₂ : Cell → ℚ} {c : Cell} (h : ∀ v ∈ stencil, x₁ (c + v) = x₂ (c + v)) :
    termSum stencil.zipIdx A x₁ c = termSum stencil.zipIdx A x₂ c := by
  unfold termSum
  congr 1
  apply List.map_congr_left
  intro e he
  rw [h e.1 (List.fst_mem_of_mem_zipIdx he)]

theorem matvecRegion_singleton (alpha : ℚ) (stencil : StencilShape) (A : ℕ → Submatrix) (x y : ℕ → Subvector ℚ)
    (boxes : SubgridArray) : matvecRegion alpha stencil A x [boxes] y 0 =
      boxes.foldl (matvecBox alpha stencil (A 0) (x 0)) (y 0) := by
  unfold matvecRegion
  simp only [List.zipIdx_singleton, List.foldl_cons, List.foldl_nil, Function.update_self]

section Passes

variable (hs : s ∈ L.allSubgrids) (hstencil : ∀ v ∈ stencil, v = 0 ∨ v ∈ updateAllShape) (hg : 1 ≤ g) {c : Cell}
  (hc : c ∈ s.cells)

include hs hstencil hg hc

/-- A dependent cell sees the values after the exchange. -/
theorem termSum_after (hafter : L.Delivered updateAllShape x s xAfter) (hds : xAfter.dataSpace = ghostSpace s g) :
    termSum stencil.zipIdx A xAfter.get c = termSum stencil.zipIdx A (L.valueFor x s) c := by
  apply termSum_congr
  intro v hv
  refine hafter.get_eq hs ?_ (reaches_of_mem hc (hstencil v hv))
  rw [hds]
  exact mem_dataSpace_add hg hc (hstencil v hv)

/-- An independent cell sees no value that is received. -/
theorem termSum_during (hduring : L.InFlight updateAllShape x s xDuring) (hds : xDuring.dataSpace = ghostSpace s g)
    (hind : ∀ n ∈ L.allSubgrids, ¬ Halo updateAllShape n c) :
    termSum stencil.zipIdx A xDuring.get c = termSum stencil.zipIdx A (L.valueFor x s) c := by
  apply termSum_congr
  intro v hv
  refine hduring.get_eq hs ?_ ?_ (reaches_of_mem hc (hstencil v hv))
  · rw [hds]
    exact mem_dataSpace_add hg hc (hstencil v hv)
  · rcases hstencil v hv with rfl | hvs
    · rw [add_zero]
      exact fun hneed => hneed.1 hc
    · exact not_needed_of_ind updateAll_neg (mem_own.mpr ⟨hs, rfl⟩) hc hind hvs

end Passes

/-- A process with the one subgrid `s`. -/
theorem matvec_stages (hown : L.own s.process = [s]) {alpha : ℚ} (ha : alpha ≠ 0) (beta : ℚ) (z : Subvector ℚ) :
    matvec alpha stencil (fun _ => A) (gridOn L.allSubgrids s.process) (fun _ => xDuring) (fun _ => xAfter) beta
      (fun _ => z) 0 =
    (L.depArray updateAllShape s.process s).foldl (matvecBox alpha stencil A xAfter)
      ((L.indArray updateAllShape s.process s).foldl (matvecBox alpha stencil A xDuring)
        (forSubgrids (initY (beta / alpha)) [s] (fun _ => z) 0)) := by
  have hind := indRegion_eq L updateAllShape s.process
  have hdep := depRegion_eq L updateAllShape s.process
  rw [hown] at hind hdep
  replace hind : (createComputePkgs (gridOn L.allSubgrids s.process) .all).indRegion = _ := hind
  replace hdep : (createComputePkgs (gridOn L.allSubgrids s.process) .all).depRegion = _ := hdep
  have hsubgrids : (gridOn L.allSubgrids s.process).subgrids = [s] := hown
  unfold matvec
  simp only [if_neg ha]
  rw [hind, hdep, hsubgrids, List.map_singleton, List.map_singleton, matvecRegion_singleton, matvecRegion_singleton]

/-- The product on one process, with the values of the owners; `y` keeps its ghost cells. -/
theorem matvec_eq_product (L : Layout) (hone : L.OnePerProcess) (hunit : ∀ s ∈ L.allSubgrids, s.UnitStride)
    (stencil : StencilShape) (hstencil : ∀ v ∈ stencil, v = 0 ∨ v ∈ updateAllShape) (hg : 1 ≤ g) (A : ℤ → Submatrix)
    (hA : ∀ s ∈ L.allSubgrids, (A s.process).dataSpace.UnitStride) (x y : ℤ → Subvector ℚ)
    (hx : ∀ s ∈ L.allSubgrids, (x s.process).dataSpace = ghostSpace s g)
    (hy : ∀ s ∈ L.allSubgrids, (y s.process).dataSpace = ghostSpace s g) (alpha beta : ℚ) (hs : s ∈ L.allSubgrids)
    (hduring : L.InFlight updateAllShape x s xDuring) (hafter : L.Delivered updateAllShape x s xAfter) :
    let y' := matvec alpha stencil (fun _ => A s.process) (gridOn L.allSubgrids s.process) (fun _ => xDuring)
      (fun _ => xAfter) beta (fun _ => y s.process)
    (y' 0).dataSpace = ghostSpace s g ∧
    (∀ c ∈ s.cells, (y' 0).get c =
      alpha * termSum stencil.zipIdx (A s.process) (L.valueFor x s) c + beta * (y s.process).get c) ∧
    ∀ c ∈ (ghostSpace s g).cells, c ∉ s.cells → (y' 0).get c = (y s.process).get c := by
  intro y'
  have hown : L.own s.process = [s] := own_eq_of_onePerProcess hone (mem_own.mpr ⟨hs, rfl⟩)
  have hsub : s.cells ⊆ (y s.process).dataSpace.cells := by
    intro c hc
    rw [hy s hs]
    exact mem_ghostSpace_of_mem (by omega) hc
  by_cases ha : alpha = 0
  · -- nothing but the scaling
    have hscale := forSubgrids_get (mapBox fun v => v * beta) (y := fun _ => y s.process) (f := fun v => v * beta)
      ⟨rfl, fun c hc => mapBox_get _ (hunit s hs) hsub hc⟩
    have hy' : y' = forSubgrids (mapBox fun v => v * beta) [s] fun _ => y s.process := by
      show matvec _ _ _ _ _ _ _ _ = _
      unfold matvec
      rw [if_pos ha]
      exact congrArg (fun sa => forSubgrids _ sa _) hown
    rw [← hy', hy s hs] at hscale
    refine ⟨hscale.1, ?_, ?_⟩
    · intro c hc
      rw [hscale.2 c (hy s hs ▸ hsub hc), if_pos hc, ha]
      ring
    · intro c hc hno
      rw [hscale.2 c hc, if_neg hno]
  · obtain ⟨hind, hdep, hindUnit, hdepUnit⟩ := compute_exact updateAll_neg (mem_own.mpr ⟨hs, rfl⟩) (hunit s hs)
    have hxd : xDuring.dataSpace = ghostSpace s g := hduring.dataSpace.trans (hx s hs)
    have hxa : xAfter.dataSpace = ghostSpace s g := hafter.dataSpace.trans (hx s hs)
    -- the three stages of `y`
    obtain ⟨hds₀, hget₀⟩ := forSubgrids_get (initY (beta / alpha)) (y := fun _ => y s.process) (f := fun v => beta / alpha * v)
      (initY_get _ (hunit s hs) hsub)
    set y₀ := forSubgrids (initY (beta / alpha)) [s] (fun _ => y s.process) 0 with hy₀
    obtain ⟨hds₁, hin₁, hout₁⟩ := matvecBoxes_get (A := A s.process) (x := xDuring) (y := y₀) alpha stencil hind hindUnit (hA s hs)
      (hxd.trans (hds₀.trans (hy s hs)).symm) fun c hc => hds₀ ▸ hsub hc.1
    set y₁ := (L.indArray updateAllShape s.process s).foldl (matvecBox alpha stencil (A s.process) xDuring) y₀ with hy₁
    obtain ⟨hds₂, hin₂, hout₂⟩ := matvecBoxes_get (A := A s.process) (x := xAfter) (y := y₁) alpha stencil hdep hdepUnit (hA s hs)
      (hxa.trans ((hds₁.trans hds₀).trans (hy s hs)).symm) fun c hc => (hds₁.trans hds₀) ▸ hsub hc.1
    have hy' : y' 0 = (L.depArray updateAllShape s.process s).foldl (matvecBox alpha stencil (A s.process) xAfter) y₁ :=
      matvec_stages hown ha beta (y s.process)
    have hds : ∀ c ∈ s.cells, c ∈ y₀.dataSpace.cells := fun c hc => hds₀ ▸ hsub hc
    have hvalue : ∀ c ∈ s.cells, y₀.get c = beta / alpha * (y s.process).get c := by
      intro c hc
      rw [hget₀ c (hsub hc), if_pos hc]
    rw [hy']
    refine ⟨(hds₂.trans (hds₁.trans hds₀)).trans (hy s hs), ?_, ?_⟩
    · intro c hc
      by_cases hh : ∃ n ∈ L.allSubgrids, Halo updateAllShape n c
      · rw [hin₂ c ⟨hc, hh⟩, termSum_after hs hstencil hg hc hafter hxa,
          hout₁ c (hds c hc) fun h => h.2 hh.choose hh.choose_spec.1 hh.choose_spec.2, hvalue c hc]
        field_simp
        ring
      · have hno : ∀ n ∈ L.allSubgrids, ¬ Halo updateAllShape n c := fun n hn hhn => hh ⟨n, hn, hhn⟩
        rw [hout₂ c (hds₁ ▸ hds c hc) fun h => hh h.2, hin₁ c ⟨hc, hno⟩, termSum_during hs hstencil hg hc hduring hxd hno,
          hvalue c hc]
        field_simp
        ring
    · intro c hc hno
      have hcy : c ∈ (y s.process).dataSpace.cells := hy s hs ▸ hc
      rw [hout₂ c (by rw [hds₁, hds₀]; exact hcy) fun h => hno h.1, hout₁ c (by rw [hds₀]; exact hcy) fun h => hno h.1,
        hget₀ c hcy, if_neg hno]

/-- One row of coefficients everywhere, and a value for each process. -/
def constantMatrix (p : ℤ) : Submatrix := ⟨newSubgrid p 0 0 1 1 1 0 0 0 p, fun s => s, fun a => a⟩

def constantVector (v : ℚ) (p : ℤ) : Subvector ℚ := ⟨ghostSpace (newSubgrid p 0 0 1 1 1 0 0 0 p) 1, fun _ => v + p⟩

/-- The subvector of process 0 with a value `v` in the cell that process 1 owns. -/
def receivedVector (v : ℚ) : Subvector ℚ :=
  ⟨ghostSpace (newSubgrid 0 0 0 1 1 1 0 0 0 0) 1, fun a => if a = 14 then v else 2⟩

theorem pair_matvec :
    let y' := matvec 3 sevenPoint (fun _ => constantMatrix 0) (gridOn pair.allSubgrids 0) (fun _ => receivedVector 7)
      (fun _ => receivedVector 3) 5 fun _ => constantVector 1 0
    (y' 0).get (0, 0, 0) = 3 * termSum sevenPoint.zipIdx (constantMatrix 0)
      (pair.valueFor (constantVector 2) (newSubgrid 0 0 0 1 1 1 0 0 0 0)) (0, 0, 0) + 5 * (constantVector 1 0).get (0, 0, 0) := by
  have hall : ∀ s ∈ pair.allSubgrids, s = newSubgrid s.process 0 0 1 1 1 0 0 0 s.process := by decide
  have hspace : ∀ (v : ℚ), ∀ s ∈ pair.allSubgrids, (constantVector v s.process).dataSpace = ghostSpace s 1 := by
    intro v s hs
    rw [hall s hs]
    rfl
  have hcells : ∀ c ∈ (ghostSpace (newSubgrid 0 0 0 1 1 1 0 0 0 0) 1).cells,
      pair.Needed updateAllShape (newSubgrid 0 0 0 1 1 1 0 0 0 0) c ↔
        cellIndex (ghostSpace (newSubgrid 0 0 0 1 1 1 0 0 0 0) 1) c = 14 := by decide
  have hone : ∀ c ∈ (ghostSpace (newSubgrid 0 0 0 1 1 1 0 0 0 0) 1).cells,
      pair.Needed updateAllShape (newSubgrid 0 0 0 1 1 1 0 0 0 0) c → ∀ t ∈ pair.allSubgrids, c ∈ t.cells → t.process = 1 := by
    decide
  have hothers : ∀ v : ℚ, pair.InFlight updateAllShape (constantVector 2) (newSubgrid 0 0 0 1 1 1 0 0 0 0) (receivedVector v) := by
    intro v
    refine ⟨rfl, ?_⟩
    intro c hc hn
    have hother : (receivedVector v).get c = 2 := if_neg (mt (hcells c hc).mpr hn)
    rw [hother]
    show (2 : ℚ) = 2 + ((0 : ℤ) : ℚ)
    norm_num
  have hreceived : pair.Delivered updateAllShape (constantVector 2) (newSubgrid 0 0 0 1 1 1 0 0 0 0) (receivedVector 3) := by
    refine ⟨hothers 3, ?_⟩
    intro c hc hn t ht hct
    have hvalue : (receivedVector 3).get c = 3 := if_pos ((hcells c hc).mp hn)
    rw [hvalue, hone c hc hn t ht hct]
    show (3 : ℚ) = 2 + ((1 : ℤ) : ℚ)
    norm_num
  exact (matvec_eq_product pair (by unfold OnePerProcess; decide) (by decide) sevenPoint (by decide) le_rfl constantMatrix
    (fun s hs => ⟨rfl, rfl, rfl⟩) (constantVector 2) (constantVector 1) (hspace 2) (hspace 1) 3 5
    (s := newSubgrid 0 0 0 1 1 1 0 0 0 0) (by decide) (hothers 7) hreceived).2.1 (0, 0, 0) (by decide)

end Layout

end ParFlow
