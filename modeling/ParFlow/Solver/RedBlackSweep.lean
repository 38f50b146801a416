import ParFlow.Solver.MatrixDefs
import ParFlow.Solver.Matvec
import ParFlow.Comm.Exchange

/-! A half sweep of all processes is a half sweep of the undivided grid. -/

namespace ParFlow

open Cover Subregion PointLoop

/-! ## Sweeps on the undivided grid -/

/-- The points of the half sweep `rb`. -/
def OfColour : Bool → Cell → Prop
  | false, c => IsRed c
  | true, c => ¬ IsRed c

instance : (rb : Bool) → (c : Cell) → Decidable (OfColour rb c)
  | false, c => inferInstanceAs (Decidable (IsRed c))
  | true, c => inferInstanceAs (Decidable (¬ IsRed c))

def gsValue (s : StencilShape) (a : ℕ → Cell → ℚ) (b f : Cell → ℚ) (c : Cell) : ℚ :=
  (b c - ([1, 2, 3, 4, 5, 6].map fun e => a e c * f (c + stencilElt s e)).sum) / a 0 c

def gridSweeps (s : StencilShape) (a : ℕ → Cell → ℚ) (b : Cell → ℚ) : Sweeps (Cell → ℚ) where
  init := fun _ _ => 0
  first := fun f c => if IsRed c then b c / a 0 c else f c
  half := fun _ rb f c => if OfColour rb c then gsValue s a b f c else f c

theorem gsValue_congr {s : StencilShape} {a a' : ℕ → Cell → ℚ} {b b' f f' : Cell → ℚ} {c : Cell} (hb : b c = b' c)
    (ha : a 0 c = a' 0 c) (hf : ∀ e ∈ [1, 2, 3, 4, 5, 6], a e c * f (c + stencilElt s e) = a' e c * f' (c + stencilElt s e)) :
    gsValue s a b f c = gsValue s a' b' f' c := by
  unfold gsValue
  rw [hb, ha, List.map_congr_left hf]

/-! ## One box -/

section Box

variable {box : Subregion} {A : Submatrix} {b x : Subvector ℚ} {s : StencilShape} {c : Cell}

theorem submatrixElt_corner (hA : A.dataSpace.UnitStride) (e : ℕ) (box : Subregion) (d : Cell) :
    submatrixElt A e box.ix box.iy box.iz + (cellIndex A.dataSpace d - cellIndex A.dataSpace box.corner) =
      submatrixElt A e d.1 d.2.1 d.2.2 := by
  rw [submatrixElt_eq hA, show submatrixElt A e box.ix box.iy box.iz = _ from submatrixElt_eq hA e box.corner]
  ring

theorem firstBox_get (hbox : box.Strided) (hA : A.dataSpace.UnitStride) (hb : b.dataSpace = x.dataSpace)
    (hsub : ∀ d ∈ box.points, d ∈ x.dataSpace.cells) (hc : c ∈ x.dataSpace.cells) :
    (firstBox A b x box).get c = if c ∈ box.points then b.get c / A.coeff 0 c else x.get c := by
  have hloop := foldl_boxLoopI2 box x.dataSpace A.dataSpace (fun (data : ℤ → ℚ) i => Function.update data
    (cellIndex x.dataSpace box.corner + i.1) (b.data (cellIndex b.dataSpace box.corner + i.1) /
      A.data (submatrixElt A 0 box.ix box.iy box.iz + i.2))) x.data
  simp only [hb, add_sub_cancel, submatrixElt_corner hA] at hloop
  have hcells := foldl_cells (points_nodup hbox) hsub
    (fun d _ _ _ _ _ => (rfl : b.data (cellIndex x.dataSpace d) / A.data (submatrixElt A 0 d.1 d.2.1 d.2.2) = _)) x.data hc
  rw [← hloop] at hcells
  unfold firstBox Subvector.get Submatrix.coeff
  simp only [hb]
  exact hcells

theorem sweepBox_get (hbox : box.Strided) (hA : A.dataSpace.UnitStride) (hb : b.dataSpace = x.dataSpace)
    (hsub : ∀ d ∈ box.points, d ∈ x.dataSpace.cells)
    (hs : ∀ e ∈ [1, 2, 3, 4, 5, 6], ∀ d ∈ box.points, d + stencilElt s e ∈ x.dataSpace.cells ∧ d + stencilElt s e ∉ box.points)
    (hc : c ∈ x.dataSpace.cells) :
    (sweepBox s A b x box).get c = if c ∈ box.points then gsValue s A.coeff b.get x.get c else x.get c := by
  have hxe : ∀ (e : ℕ) (d : Cell), cellIndex x.dataSpace (box.corner + stencilElt s e) +
      (cellIndex x.dataSpace d - cellIndex x.dataSpace box.corner) = cellIndex x.dataSpace (d + stencilElt s e) := by
    intro e d
    rw [← cellIndex_add x.dataSpace d (stencilElt s e) box.corner]
    ring
  have hloop := foldl_boxLoopI2 box x.dataSpace A.dataSpace (fun (data : ℤ → ℚ) i => Function.update data
    (cellIndex x.dataSpace box.corner + i.1) ((b.data (cellIndex b.dataSpace box.corner + i.1) -
      ([1, 2, 3, 4, 5, 6].map fun e => A.data (submatrixElt A e box.ix box.iy box.iz + i.2) *
        data (cellIndex x.dataSpace (box.corner + stencilElt s e) + i.1)).sum) /
      A.data (submatrixElt A 0 box.ix box.iy box.iz + i.2))) x.data
  simp only [hb, add_sub_cancel, submatrixElt_corner hA, hxe] at hloop
  have hcells := foldl_cells (v := fun d data => (b.data (cellIndex x.dataSpace d) -
      ([1, 2, 3, 4, 5, 6].map fun e => A.data (submatrixElt A e d.1 d.2.1 d.2.2) *
        data (cellIndex x.dataSpace (d + stencilElt s e))).sum) / A.data (submatrixElt A 0 d.1 d.2.1 d.2.2))
    (points_nodup hbox) hsub (by
      intro d hd data data' _ hothers
      have hterms : ∀ e ∈ [1, 2, 3, 4, 5, 6], A.data (submatrixElt A e d.1 d.2.1 d.2.2) *
          data (cellIndex x.dataSpace (d + stencilElt s e)) = A.data (submatrixElt A e d.1 d.2.1 d.2.2) *
          data' (cellIndex x.dataSpace (d + stencilElt s e)) := by
        intro e he
        rw [hothers _ (hs e he d hd).1 (hs e he d hd).2]
      rw [List.map_congr_left hterms]) x.data hc
  rw [← hloop] at hcells
  unfold sweepBox gsValue Subvector.get Submatrix.coeff
  simp only [hb]
  exact hcells

end Box

/-! ## The boxes of one colour -/

/-- The value that a box gives to a point depends on points of the other colour only, so that the order of
the boxes does not matter. -/
theorem foldl_boxes_get (body : Subvector ℚ → Subregion → Subvector ℚ) (val : Cell → ℚ) {ds : Subgrid} (colour : Cell → Prop)
    {x : Subvector ℚ} {boxes : List Subregion} (hcolour : ∀ u ∈ boxes, ∀ c ∈ u.points, colour c)
    (hbody : ∀ u ∈ boxes, ∀ y, y.dataSpace = ds → (∀ c ∈ ds.cells, ¬ colour c → y.get c = x.get c) →
      (body y u).dataSpace = ds ∧ ∀ c ∈ ds.cells, (body y u).get c = if c ∈ u.points then val c else y.get c)
    (hx : x.dataSpace = ds) :
    (boxes.foldl body x).dataSpace = ds ∧
      (∀ c ∈ ds.cells, (∃ u ∈ boxes, c ∈ u.points) → (boxes.foldl body x).get c = val c) ∧
      ∀ c ∈ ds.cells, (∀ u ∈ boxes, c ∉ u.points) → (boxes.foldl body x).get c = x.get c := by
  have hrun : ∀ (boxes' : List Subregion) (y : Subvector ℚ), (∀ u ∈ boxes', u ∈ boxes) → y.dataSpace = ds →
      (∀ c ∈ ds.cells, ¬ colour c → y.get c = x.get c) →
      (boxes'.foldl body y).dataSpace = ds ∧ ∀ c ∈ ds.cells,
        (boxes'.foldl body y).get c = if ∃ u ∈ boxes', c ∈ u.points then val c else y.get c := by
    intro boxes'
    induction boxes' with
    | nil =>
      intro y _ hy _
      exact ⟨hy, fun c _ => by simp⟩
    | cons u boxes' ih =>
      intro y hmem hy hother
      obtain ⟨hspace, hget⟩ := hbody u (hmem u List.mem_cons_self) y hy hother
      have hother' : ∀ c ∈ ds.cells, ¬ colour c → (body y u).get c = x.get c := by
        intro c hc hno
        rw [hget c hc, if_neg fun hcu => hno (hcolour u (hmem u List.mem_cons_self) c hcu)]
        exact hother c hc hno
      obtain ⟨hspace', hget'⟩ := ih (body y u) (fun w hw => hmem w (List.mem_cons_of_mem _ hw)) hspace hother'
      refine ⟨hspace', ?_⟩
      intro c hc
      rw [List.foldl_cons, hget' c hc, hget c hc]
      by_cases hcu : c ∈ u.points
      · simp [hcu]
      · simp [hcu]
  obtain ⟨hspace, hget⟩ := hrun boxes x (fun _ hu => hu) hx fun _ _ _ => rfl
  refine ⟨hspace, ?_, ?_⟩
  · intro c hc hmem
    rw [hget c hc, if_pos hmem]
  · intro c hc hno
    rw [hget c hc, if_neg fun ⟨u, hu, hcu⟩ => hno u hu hcu]

theorem forSubregions_singleton (body : ℕ → Subvector ℚ → Subregion → Subvector ℚ) (boxes : List Subregion)
    (x : ℕ → Subvector ℚ) : forSubregions body [boxes] x 0 = boxes.foldl (body 0) (x 0) := by
  unfold forSubregions
  simp only [List.zipIdx_singleton, List.foldl_cons, List.foldl_nil, Function.update_self]

theorem ofColour_add {rb : Bool} {c v : Cell} (hv : v ∈ updateAllShape) : OfColour rb (c + v) ↔ ¬ OfColour rb c := by
  cases rb with
  | false => exact isRed_add hv
  | true => exact not_congr (isRed_add hv)

/-! ## The processes of a layout -/

/-- Until it is finalized, an exchange writes only to the cells that it receives; then they hold the values
that their owners had at its start. -/
structure VectorUpdate.Delivers (L : Layout) (mode : UpdateMode) (g : ℤ) (u : VectorUpdate) : Prop where
  during : ∀ x, ∀ s ∈ L.allSubgrids, (x s.process 0).dataSpace = ghostSpace s g →
    (u.during x s.process 0).dataSpace = ghostSpace s g ∧ ∀ c ∈ (ghostSpace s g).cells,
      ¬ L.Receives mode s c → (u.during x s.process 0).get c = (x s.process 0).get c
  finalize : ∀ x, ∀ s ∈ L.allSubgrids, ∀ y, (y 0).dataSpace = ghostSpace s g →
    (u.finalize x s.process y 0).dataSpace = ghostSpace s g ∧ ∀ c ∈ (ghostSpace s g).cells,
      (¬ L.Receives mode s c → (u.finalize x s.process y 0).get c = (y 0).get c) ∧
      (L.Receives mode s c → ∀ t ∈ L.allSubgrids, c ∈ t.cells → (u.finalize x s.process y 0).get c = (x t.process 0).get c)

/-- A system for the smoother: a matrix with seven points and no coefficient towards cells outside of all
subgrids, a right-hand side, and exchanges that work. -/
structure RedBlackProblem (L : Layout) (g : ℤ) (s : StencilShape) (A : ℤ → ℕ → Submatrix) (b : ℤ → ℕ → Subvector ℚ)
    (update : ℕ → Bool → VectorUpdate) : Prop where
  onePerProcess : L.OnePerProcess
  nonneg : ∀ t ∈ L.allSubgrids, 0 ≤ t.ix ∧ 0 ≤ t.iy ∧ 0 ≤ t.iz
  unitStride : ∀ t ∈ L.allSubgrids, t.UnitStride
  ghost : 1 ≤ g
  stencil : ∀ e ∈ [1, 2, 3, 4, 5, 6], stencilElt s e ∈ updateAllShape
  matrixSpace : ∀ t ∈ L.allSubgrids, (A t.process 0).dataSpace.UnitStride
  rhsSpace : ∀ t ∈ L.allSubgrids, (b t.process 0).dataSpace = ghostSpace t g
  diagonal : ∀ t ∈ L.allSubgrids, ∀ c ∈ t.cells, (A t.process 0).coeff 0 c ≠ 0
  outside : ∀ t ∈ L.allSubgrids, ∀ c ∈ t.cells, ∀ e ∈ [1, 2, 3, 4, 5, 6],
    (∀ n ∈ L.allSubgrids, c + stencilElt s e ∉ n.cells) → (A t.process 0).coeff e c = 0
  delivers : ∀ count rb, (update count rb).Delivers L (sweepMode rb) g

namespace Layout

variable {L : Layout} {g : ℤ} {s : StencilShape} {A : ℤ → ℕ → Submatrix} {b : ℤ → ℕ → Subvector ℚ}
  {update : ℕ → Bool → VectorUpdate} {t : Subgrid} {c : Cell} {rb : Bool} {x : ℤ → ℕ → Subvector ℚ} {f : Cell → ℚ}

/-- A function on the undivided grid, from its parts on the processes. -/
def onGrid (L : Layout) (f : ℤ → Cell → ℚ) (c : Cell) : ℚ :=
  match L.allSubgrids.find? fun t => c ∈ t.cells with
  | some t => f t.process c
  | none => 0

theorem onGrid_of_mem {f : ℤ → Cell → ℚ} (ht : t ∈ L.allSubgrids) (hc : c ∈ t.cells) : L.onGrid f c = f t.process c := by
  obtain ⟨u, hu⟩ := Option.isSome_iff_exists.mp (List.find?_isSome.mpr ⟨t, ht, by simpa using hc⟩ :
    (L.allSubgrids.find? fun t => c ∈ t.cells).isSome)
  have hcu : c ∈ u.cells := by simpa using List.find?_some hu
  unfold onGrid
  rw [hu, eq_of_mem ht (List.mem_of_find?_eq_some hu) hc hcu]

/-- The vectors of the processes hold the values of a function on the undivided grid. -/
structure Represents (L : Layout) (g : ℤ) (x : ℤ → ℕ → Subvector ℚ) (f : Cell → ℚ) : Prop where
  space : ∀ t ∈ L.allSubgrids, (x t.process 0).dataSpace = ghostSpace t g
  value : ∀ t ∈ L.allSubgrids, ∀ c ∈ t.cells, (x t.process 0).get c = f c

def gridCoeff (L : Layout) (A : ℤ → ℕ → Submatrix) (e : ℕ) : Cell → ℚ := L.onGrid fun p => (A p 0).coeff e

def gridValue (L : Layout) (x : ℤ → ℕ → Subvector ℚ) : Cell → ℚ := L.onGrid fun p => (x p 0).get

theorem gridCoeff_of_mem (ht : t ∈ L.allSubgrids) (hc : c ∈ t.cells) (e : ℕ) : L.gridCoeff A e c = (A t.process 0).coeff e c :=
  onGrid_of_mem (f := fun p => (A p 0).coeff e) ht hc

theorem gridValue_of_mem (ht : t ∈ L.allSubgrids) (hc : c ∈ t.cells) : L.gridValue x c = (x t.process 0).get c :=
  onGrid_of_mem (f := fun p => (x p 0).get) ht hc

/-! ## Regions of one colour -/

/-- The offsets of the points that are computed. -/
def colourTable (rb : Bool) : List Cell := if rb then black else red

theorem mem_colourTable : (∃ o ∈ colourTable rb, InClass o c) ↔ OfColour rb c := by
  cases rb with
  | false => exact red_inClass
  | true => exact black_inClass

theorem colourTable_isOffset (rb : Bool) : ∀ o ∈ colourTable rb, IsOffset o := by
  cases rb with
  | false => exact red_isOffset
  | true => exact black_isOffset

theorem modePkg_regions (L : Layout) (rb : Bool) (p : ℤ) :
    (L.modePkg (sweepMode rb) p).indRegion = (L.own p).map (fun t => projectParts (colourTable rb) (L.indArray updateAllShape p t)) ∧
      (L.modePkg (sweepMode rb) p).depRegion =
        (L.own p).map fun t => projectParts (colourTable rb) (L.depArray updateAllShape p t) := by
  have hproject : ∀ table, projectRBPoint (L.pkg updateAllShape p).indRegion table =
      (L.own p).map (fun t => projectParts table (L.indArray updateAllShape p t)) ∧
        projectRBPoint (L.pkg updateAllShape p).depRegion table =
          (L.own p).map fun t => projectParts table (L.depArray updateAllShape p t) := by
    intro table
    rw [projectRBPoint_eq, projectRBPoint_eq, indRegion_eq, depRegion_eq, List.map_map, List.map_map]
    exact ⟨rfl, rfl⟩
  cases rb with
  | false => exact hproject red
  | true => exact hproject black

theorem mem_parts (rb : Bool) (c : Cell) (hlo : 0 ≤ t.ix ∧ 0 ≤ t.iy ∧ 0 ≤ t.iz) {boxes : SubgridArray} {cover : Set Cell}
    (hex : Exact cells boxes {c | c ∈ t.cells ∧ c ∈ cover}) :
    (∃ u ∈ projectParts (colourTable rb) boxes, c ∈ u.points) ↔ (c ∈ t.cells ∧ c ∈ cover) ∧ OfColour rb c := by
  have hboxes : ∀ u ∈ boxes, u.NonEmpty → u.FromMinusOne := by
    intro u hu hne
    have hcorner : u.corner ∈ u.cells := by
      obtain ⟨hx, hy, hz⟩ := hne
      rw [mem_cells_iff]
      simp only [corner]
      omega
    have hmem := ((hex.mem_iff u.corner).mp ⟨u, hu, hcorner⟩).1
    rw [mem_cells_iff] at hmem
    simp only [corner] at hmem
    unfold Subregion.FromMinusOne
    omega
  rw [mem_points_projectParts hboxes (colourTable_isOffset rb), mem_colourTable, hex.mem_iff]
  rfl

theorem parts_strided (rb : Bool) {boxes : SubgridArray} {u : Subregion} (hu : u ∈ projectParts (colourTable rb) boxes) : u.Strided := by
  obtain ⟨o, -, w, -, hw⟩ := mem_projectParts.mp hu
  rw [(projectPart_eq_some hw).2]
  exact projectBox_strided o w

/-- A half sweep receives the points of the other colour. -/
theorem receives_sweep (hnonneg : ∀ t ∈ L.allSubgrids, 0 ≤ t.ix ∧ 0 ≤ t.iy ∧ 0 ≤ t.iz) (hone : L.OnePerProcess)
    (ht : t ∈ L.allSubgrids) : L.Receives (sweepMode rb) t c ↔ L.Needed updateAllShape t c ∧ ¬ OfColour rb c := by
  have hown : L.own t.process = [t] := own_eq_of_onePerProcess hone (mem_own.mpr ⟨ht, rfl⟩)
  have hn : t ∈ L.own t.process := mem_own.mpr ⟨ht, rfl⟩
  have hmem : ∀ table, (∀ o ∈ table, IsOffset o) →
      ((∃ u ∈ projectParts table (L.recvArray updateAllShape t.process t), c ∈ u.points) ↔
        L.Needed updateAllShape t c ∧ ∃ o ∈ table, InClass o c) := by
    intro table htable
    have hex : Exact cells (L.recvArray updateAllShape t.process t) {c | L.Needed updateAllShape t c} :=
      (received_exact updateAllShape hn).1
    rw [mem_points_projectParts (fun u hu _ => recvArray_fromMinusOne (fromMinusOne_of_nonneg hnonneg _) hn hu) htable,
      hex.mem_iff]
    rfl
  have hregion := modePkg_recvRegion L (sweepMode rb) t.process
  rw [hown] at hregion
  unfold Receives
  rw [show (createComputePkgs (gridOn L.allSubgrids t.process) (sweepMode rb)).recvRegion = _ from hregion,
    List.map_singleton, List.flatten_singleton]
  cases rb with
  | false => exact (hmem black black_isOffset).trans (and_congr_right fun _ => black_inClass)
  | true => exact (hmem red red_isOffset).trans (and_congr_right fun _ => red_inClass.trans not_not.symm)

/-! ## The sweeps of all processes -/

theorem ghostSpace_add (hP : RedBlackProblem L g s A b update) (hc : c ∈ t.cells) {e : ℕ} (he : e ∈ [1, 2, 3, 4, 5, 6]) : c + stencilElt s e ∈ (ghostSpace t g).cells :=
  mem_dataSpace_add hP.ghost hc (Or.inr (hP.stencil e he))

section Sweep

variable (hP : RedBlackProblem L g s A b update) (ht : t ∈ L.allSubgrids)

include hP ht

theorem ind_exact : Exact cells (L.indArray updateAllShape t.process t)
    {c | c ∈ t.cells ∧ c ∈ {c | ∀ n ∈ L.allSubgrids, ¬ Halo updateAllShape n c}} :=
  (compute_exact updateAll_neg (mem_own.mpr ⟨ht, rfl⟩) (hP.unitStride t ht)).1

theorem dep_exact : Exact cells (L.depArray updateAllShape t.process t)
    {c | c ∈ t.cells ∧ c ∈ {c | ∃ n ∈ L.allSubgrids, Halo updateAllShape n c}} :=
  (compute_exact updateAll_neg (mem_own.mpr ⟨ht, rfl⟩) (hP.unitStride t ht)).2.1

/-- The sweep over the boxes of one colour. -/
theorem sweepBoxes_get (rb : Bool) {boxes : SubgridArray} {cover : Set Cell} (hex : Exact cells boxes {c | c ∈ t.cells ∧ c ∈ cover})
    {y : Subvector ℚ} (hy : y.dataSpace = ghostSpace t g) :
    ((projectParts (colourTable rb) boxes).foldl (sweepBox s (A t.process 0) (b t.process 0)) y).dataSpace = ghostSpace t g ∧
      (∀ c ∈ t.cells, c ∈ cover → OfColour rb c →
        ((projectParts (colourTable rb) boxes).foldl (sweepBox s (A t.process 0) (b t.process 0)) y).get c =
          gsValue s (A t.process 0).coeff (b t.process 0).get y.get c) ∧
      ∀ c ∈ (ghostSpace t g).cells, ¬ ((c ∈ t.cells ∧ c ∈ cover) ∧ OfColour rb c) →
        ((projectParts (colourTable rb) boxes).foldl (sweepBox s (A t.process 0) (b t.process 0)) y).get c = y.get c := by
  have hmem := fun c => mem_parts rb c (hP.nonneg t ht) hex
  have hpoint : ∀ u ∈ projectParts (colourTable rb) boxes, ∀ c ∈ u.points, c ∈ t.cells ∧ OfColour rb c := by
    intro u hu c hc
    obtain ⟨⟨hct, -⟩, hcol⟩ := (hmem c).mp ⟨u, hu, hc⟩
    exact ⟨hct, hcol⟩
  have hsub : ∀ c ∈ t.cells, c ∈ (ghostSpace t g).cells := fun c hc => mem_ghostSpace_of_mem (by have := hP.ghost; omega) hc
  obtain ⟨hspace, hin, hout⟩ := foldl_boxes_get (sweepBox s (A t.process 0) (b t.process 0))
    (gsValue s (A t.process 0).coeff (b t.process 0).get y.get) (OfColour rb)
    (fun u hu c hc => (hpoint u hu c hc).2) (by
      intro u hu z hz hother
      refine ⟨hz, ?_⟩
      intro c hc
      rw [sweepBox_get (parts_strided rb hu) (hP.matrixSpace t ht) ((hP.rhsSpace t ht).trans hz.symm)
        (fun d hd => hz ▸ hsub d (hpoint u hu d hd).1) ?_ (hz ▸ hc)]
      · -- the neighbours have the other colour, so that they still have their first values
        by_cases hcu : c ∈ u.points
        · rw [if_pos hcu, if_pos hcu]
          apply gsValue_congr rfl rfl
          intro e he
          rw [hother _ (ghostSpace_add hP (hpoint u hu c hcu).1 he)]
          exact fun hcol => (ofColour_add (hP.stencil e he)).mp hcol (hpoint u hu c hcu).2
        · rw [if_neg hcu, if_neg hcu]
      · intro e he d hd
        refine ⟨hz ▸ ghostSpace_add hP (hpoint u hu d hd).1 he, ?_⟩
        intro hmem'
        exact (ofColour_add (hP.stencil e he)).mp (hpoint u hu _ hmem').2 (hpoint u hu d hd).2) hy
  refine ⟨hspace, ?_, ?_⟩
  · intro c hc hcover hcol
    exact hin c (hsub c hc) ((hmem c).mpr ⟨⟨hc, hcover⟩, hcol⟩)
  · intro c hc hno
    apply hout c hc
    intro u hu hcu
    exact hno ((hmem c).mp ⟨u, hu, hcu⟩)

/-- A neighbour that no exchange brings is an own cell, or counts for nothing. -/
theorem coeff_mul_eq (hx : L.Represents g x f) (hc : c ∈ t.cells) {e : ℕ} (he : e ∈ [1, 2, 3, 4, 5, 6]) {v : ℚ}
    (hown : c + stencilElt s e ∈ t.cells → v = (x t.process 0).get (c + stencilElt s e))
    (hother : ∀ n ∈ L.allSubgrids, c + stencilElt s e ∉ t.cells → c + stencilElt s e ∈ n.cells →
      v = (x n.process 0).get (c + stencilElt s e)) :
    (A t.process 0).coeff e c * v = L.gridCoeff A e c * f (c + stencilElt s e) := by
  rw [gridCoeff_of_mem ht hc]
  by_cases hdom : ∃ n ∈ L.allSubgrids, c + stencilElt s e ∈ n.cells
  · obtain ⟨n, hn, hcn⟩ := hdom
    by_cases hct : c + stencilElt s e ∈ t.cells
    · rw [hown hct, hx.value t ht _ hct]
    · rw [hother n hn hct hcn, hx.value n hn _ hcn]
  · rw [hP.outside t ht c hc e he fun n hn hcn => hdom ⟨n, hn, hcn⟩, zero_mul, zero_mul]

theorem half_eq (count : ℕ) (rb : Bool) (x : ℤ → ℕ → Subvector ℚ) : ∃ y : ℕ → Subvector ℚ,
    y 0 = (projectParts (colourTable rb) (L.indArray updateAllShape t.process t)).foldl
      (sweepBox s (A t.process 0) (b t.process 0)) ((update count rb).during x t.process 0) ∧
    (processSweeps L.allSubgrids s A b update).half count rb x t.process 0 =
      (projectParts (colourTable rb) (L.depArray updateAllShape t.process t)).foldl
        (sweepBox s (A t.process 0) (b t.process 0)) ((update count rb).finalize x t.process y 0) := by
  have hown : L.own t.process = [t] := own_eq_of_onePerProcess hP.onePerProcess (mem_own.mpr ⟨ht, rfl⟩)
  obtain ⟨hind, hdep⟩ := modePkg_regions L rb t.process
  rw [hown, List.map_singleton] at hind hdep
  refine ⟨forSubregions (fun i => sweepBox s (A t.process i) (b t.process i))
    [projectParts (colourTable rb) (L.indArray updateAllShape t.process t)] ((update count rb).during x t.process), ?_, ?_⟩
  · exact forSubregions_singleton _ _ _
  · rw [← forSubregions_singleton (fun i => sweepBox s (A t.process i) (b t.process i)), ← hdep, ← hind]
    rfl

/-- A half sweep of all processes is one of the undivided grid. -/
theorem half_get (hx : L.Represents g x f) (count : ℕ) (rb : Bool) :
    ((processSweeps L.allSubgrids s A b update).half count rb x t.process 0).dataSpace = ghostSpace t g ∧
      ∀ c ∈ t.cells, ((processSweeps L.allSubgrids s A b update).half count rb x t.process 0).get c =
        (gridSweeps s (L.gridCoeff A) (L.gridValue b)).half count rb f c := by
  obtain ⟨y, hy, hhalf⟩ := half_eq hP ht count rb x
  have hsub : ∀ c ∈ t.cells, c ∈ (ghostSpace t g).cells := fun c hc => mem_ghostSpace_of_mem (by have := hP.ghost; omega) hc
  have hreceives : ∀ {c}, L.Receives (sweepMode rb) t c ↔ L.Needed updateAllShape t c ∧ ¬ OfColour rb c :=
    receives_sweep hP.nonneg hP.onePerProcess ht
  have hnot : ∀ {c}, c ∈ t.cells → ¬ L.Receives (sweepMode rb) t c := fun hc hr => (hreceives.mp hr).1.1 hc
  obtain ⟨hduring, hdget⟩ := (hP.delivers count rb).during x t ht (hx.space t ht)
  obtain ⟨hys, hyin, hyout⟩ := sweepBoxes_get hP ht rb (ind_exact hP ht) hduring
  rw [← hy] at hys hyin hyout
  obtain ⟨hzs, hzget⟩ := (hP.delivers count rb).finalize x t ht y hys
  obtain ⟨hws, hwin, hwout⟩ := sweepBoxes_get hP ht rb (dep_exact hP ht) hzs
  rw [← hhalf] at hws hwin hwout
  refine ⟨hws, ?_⟩
  intro c hc
  show _ = if OfColour rb c then _ else _
  have hrhs : (b t.process 0).get c = L.gridValue b c := (gridValue_of_mem ht hc).symm
  have hdiag : (A t.process 0).coeff 0 c = L.gridCoeff A 0 c := (gridCoeff_of_mem ht hc 0).symm
  by_cases hcol : OfColour rb c
  · rw [if_pos hcol]
    by_cases hdep : ∃ n ∈ L.allSubgrids, Halo updateAllShape n c
    · -- the dependent points see the values of the owners
      rw [hwin c hc hdep hcol]
      apply gsValue_congr hrhs hdiag
      intro e he
      have hncol : ¬ OfColour rb (c + stencilElt s e) := fun h => (ofColour_add (hP.stencil e he)).mp h hcol
      have hmem := ghostSpace_add hP hc he
      apply coeff_mul_eq hP ht hx hc he
      · intro hct
        rw [(hzget _ hmem).1 (hnot hct), hyout _ hmem fun h => hncol h.2, hdget _ hmem (hnot hct)]
      · intro n hn hct hcn
        refine (hzget _ hmem).2 (hreceives.mpr ⟨needed_iff.mpr ⟨⟨hct, stencilElt s e, hP.stencil e he, ?_⟩, n, hn, hcn⟩, hncol⟩)
          n hn hcn
        rwa [add_sub_cancel_right]
    · -- the independent points see no value of another subgrid
      have hind : ∀ n ∈ L.allSubgrids, ¬ Halo updateAllShape n c := fun n hn hh => hdep ⟨n, hn, hh⟩
      rw [hwout c (hsub c hc) fun h => hdep h.1.2, (hzget c (hsub c hc)).1 (hnot hc), hyin c hc hind hcol]
      apply gsValue_congr hrhs hdiag
      intro e he
      have hmem := ghostSpace_add hP hc he
      apply coeff_mul_eq hP ht hx hc he
      · intro hct
        exact hdget _ hmem (hnot hct)
      · intro n hn hct hcn
        exfalso
        apply not_needed_of_ind updateAll_neg (mem_own.mpr ⟨ht, rfl⟩) hc hind (hP.stencil e he)
        refine needed_iff.mpr ⟨⟨hct, stencilElt s e, hP.stencil e he, ?_⟩, n, hn, hcn⟩
        rwa [add_sub_cancel_right]
  · rw [if_neg hcol, hwout c (hsub c hc) fun h => hcol h.2, (hzget c (hsub c hc)).1 (hnot hc),
      hyout c (hsub c hc) fun h => hcol h.2, hdget c (hsub c hc) (hnot hc), hx.value t ht c hc]

end Sweep

end Layout

end ParFlow
