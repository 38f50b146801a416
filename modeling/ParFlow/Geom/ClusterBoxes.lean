import ParFlow.Geom.TagExchange

/-! The loop over the interior of a solid along its boxes. The boxes hold the interior cells
whose tags the process knows, which is one layer around the subgrid without its edges. -/

namespace ParFlow.Geom

open FuelRun Cover Clustering Subregion

variable {L : Layout} {s region : Subgrid} {solid : GrGeomSolid} {c : Cell}

/-- The interior cells of a solid at resolution `r`. -/
def GrGeomSolid.Interior (solid : GrGeomSolid) (r : ℤ) (c : Cell) : Prop :=
  InteriorCell solid.data (solid.levelAt r) (solid.origin r) c

open Classical in
/-- The vector that is clustered: the known interior cells are tagged. -/
noncomputable def interiorIndicator (L : Layout) (s : Subgrid) (solid : GrGeomSolid) : Indicator :=
  ⟨s, fun c => if Known L s c ∧ solid.Interior s.rx c then 1 else 0⟩

theorem tagged_interiorIndicator :
    (interiorIndicator L s solid).Tagged 1 c ↔ Known L s c ∧ solid.Interior s.rx c := by
  simp only [Indicator.Tagged, interiorIndicator]
  split_ifs with h
  · exact iff_of_true (by decide) h
  · exact iff_of_false (by decide) h

theorem tags_interior_returns (hs : L.own s.process = [s]) (hnone : solid.interiorBoxes = none) :
    Returns (fun fuel => vectorUpdateAll L.allSubgrids s.process fun q =>
      tagSubgrids (getGridSubgrids L.allSubgrids q) (fun t => grGeomInLoop fuel solid t.rx t) tagInterior)
      (interiorIndicator L s solid).tags := by
  have hsL : s ∈ L.allSubgrids := (Layout.mem_own.mp (hs ▸ List.mem_cons_self)).1
  have hloop : ∀ t ∈ L.allSubgrids, ∃ out, Returns (fun fuel => grGeomInLoop fuel solid t.rx t) out ∧
      Selects id (solid.Interior s.rx) t out := by
    intro t ht
    simp only [grGeomInLoop, hnone, Option.isSome_none, Bool.false_eq_true, and_false, if_false,
      (L.sameRes t ht s hsL).1]
    exact octreeInteriorNodeLoop_selects _ _ _ _
  have htag : ∀ visited (c : Cell), tagInterior visited (id c) = 1 ↔ c ∈ visited := by
    intro visited c
    rw [id_eq, tagInterior_apply]
    split_ifs with h
    · exact iff_of_true rfl h
    · exact iff_of_false (by decide) h
  obtain ⟨tags, htags, hmem, hval⟩ := exchange_returns (fun x _ => x = 1) hs hloop htag
  have heq : tags = (interiorIndicator L s solid).tags := by
    funext c
    have hc := hmem c
    simp only [id_eq] at hc
    simp only [interiorIndicator]
    split_ifs with h
    · exact hc.mpr h
    · obtain ⟨visited, hv⟩ := hval c
      rw [hv, tagInterior_apply] at hc ⊢
      split_ifs at hc ⊢
      · exact absurd (hc.mp rfl) h
      · rfl
  exact heq ▸ htags

/-! ## Agreement -/

/-- The loops over the interior cells of a region along the boxes and along the octree. -/
def InteriorAgrees (L : Layout) (s : Subgrid) (solid : GrGeomSolid) (region : Subgrid) : Prop :=
  LoopsAgree (fun fuel => computeInteriorBoxes fuel L.allSubgrids s solid) (fun solid' => grGeomInLoopBoxes solid' region)
    fun fuel => octreeInteriorNodeLoop fuel (solid.origin s.rx) solid.data (solid.levelAt s.rx) region fun _ c => [c]

/-- The boxes of the interior, once they are computed. -/
theorem computeInteriorBoxes_iff (hs : L.own s.process = [s]) (hnone : solid.interiorBoxes = none)
    (solid' : GrGeomSolid) :
    Returns (fun fuel => computeInteriorBoxes fuel L.allSubgrids s solid) solid' ↔
      ∃ boxes, Avoids (interiorIndicator L s solid) 1 (interiorIndicator L s solid).boundingBox Stuck ∧
        Tiles (interiorIndicator L s solid) 1 (interiorIndicator L s solid).boundingBox boxes ∧
        Returns (fun fuel => bergerRigoutsos fuel (interiorIndicator L s solid) (1, 1, 1) 1 []) boxes ∧
        solid' = { solid with interiorBoxes := some boxes } := by
  simp only [computeInteriorBoxes]
  rw [returns_bind_iff (tags_interior_returns hs hnone)]
  constructor
  · intro h
    have hav : Avoids (interiorIndicator L s solid) 1 (interiorIndicator L s solid).boundingBox Stuck := by
      obtain ⟨N, hN⟩ := h
      obtain ⟨boxes, hb, -⟩ := bind_eq_ok (hN N le_rfl)
      exact avoids_of_bergerRigoutsos hb
    obtain ⟨boxes, hret, htile⟩ := bergerRigoutsos_returns hav
    refine ⟨boxes, hav, htile, hret, ?_⟩
    have h' := (returns_bind_iff hret).mp h
    exact h'.unique (returns_const _)
  · rintro ⟨boxes, -, -, hret, rfl⟩
    exact (returns_bind_iff hret).mpr (returns_const _)

/-- The two loops agree exactly when the clustering of the known interior cells meets no stuck box
and all interior cells of the region are known. -/
theorem interiorAgrees_iff_known (hs : L.own s.process = [s]) (hnone : solid.interiorBoxes = none) :
    InteriorAgrees L s solid region ↔
      Avoids (interiorIndicator L s solid) 1 (interiorIndicator L s solid).boundingBox Stuck ∧
        ∀ c ∈ region.cells, solid.Interior s.rx c → Known L s c := by
  obtain ⟨slow, hslow, hsel⟩ :=
    octreeInteriorNodeLoop_selects (solid.origin s.rx) solid.data (solid.levelAt s.rx) region
  have htags : ∀ c, c ∈ tagsIn (interiorIndicator L s solid) 1 (interiorIndicator L s solid).boundingBox ↔
      Known L s c ∧ solid.Interior s.rx c := fun c => by
    rw [mem_tagsIn, tagged_interiorIndicator]
    exact ⟨fun h => h.2, fun h => ⟨h.1.mem_boundingBox _, h⟩⟩
  constructor
  · rintro ⟨solid', fast, slow', hret, hfast, hslow', -, hperm⟩
    obtain rfl := hslow.unique hslow'
    obtain ⟨boxes, hav, htile, -, rfl⟩ := (computeInteriorBoxes_iff hs hnone solid').mp hret
    refine ⟨hav, fun c hc hi => ?_⟩
    have hmem : c ∈ fast := hperm.mem_iff.mpr ((hsel.2 c).mpr ⟨hc, hi⟩)
    rw [← Except.ok.inj hfast] at hmem
    exact ((htags c).mp (((clipLoop_selects htile.1 region).2 c).mp hmem).2).1
  · rintro ⟨hav, hknown⟩
    obtain ⟨boxes, hret, htile⟩ := bergerRigoutsos_returns hav
    have hfast := clipLoop_selects htile.1 region
    refine ⟨_, _, slow, (computeInteriorBoxes_iff hs hnone _).mpr ⟨boxes, hav, htile, hret, rfl⟩, rfl, hslow, hfast.1,
      (List.perm_ext_iff_of_nodup hfast.1 hsel.1).mpr fun c => ?_⟩
    simp only [hfast.2, hsel.2, id_eq, Finset.mem_coe, htags]
    exact and_congr_right fun hc => and_iff_right_of_imp (hknown c hc)

/-- As above; and where no index is negative, no box is stuck, so that only the cells of the region
decide. -/
theorem interiorAgrees_iff (L : Layout) (s : Subgrid) (hs : L.own s.process = [s]) (solid : GrGeomSolid)
    (hnone : solid.interiorBoxes = none) (region : Subgrid) :
    (InteriorAgrees L s solid region ↔
      Avoids (interiorIndicator L s solid) 1 (interiorIndicator L s solid).boundingBox Stuck ∧
        ∀ c ∈ region.cells, solid.Interior s.rx c → Known L s c) ∧
    ((∀ t ∈ L.allSubgrids, ∀ a, 0 ≤ t.lo a) →
      (InteriorAgrees L s solid region ↔ ∀ c ∈ region.cells, solid.Interior s.rx c → Known L s c)) := by
  refine ⟨interiorAgrees_iff_known hs hnone, fun hL => ?_⟩
  have hsL : s ∈ L.allSubgrids := (Layout.mem_own.mp (hs ▸ List.mem_cons_self)).1
  rw [interiorAgrees_iff_known hs hnone, and_iff_right]
  exact avoids_of_layout hL hsL fun c hc => (tagged_interiorIndicator.mp hc).1

/-! Two slabs of two cells each, on two processes, in a solid that fills all cells. -/

def twoSlabs : Layout where
  allSubgrids := [newSubgrid 0 0 0 2 1 1 0 0 0 0, newSubgrid 2 0 0 2 1 1 0 0 0 1]
  sameRes := by decide
  disjoint := by decide

def fullSolid : GrGeomSolid := grGeomNewSolid (.leaf ⟨false, false, false, true⟩ 0) [] 2 0 0 0

theorem interior_fullSolid (h : InCube (0, 0, 0) 4 c) : fullSolid.Interior 0 c :=
  ⟨rfl, c, h, List.mem_singleton_self c⟩

theorem twoSlabs_interiorAgrees :
    InteriorAgrees twoSlabs (newSubgrid 0 0 0 2 1 1 0 0 0 0) fullSolid (newSubgrid 0 0 0 3 1 1 0 0 0 0) := by
  have hknown : ∀ c ∈ (newSubgrid 0 0 0 3 1 1 0 0 0 0).cells, Known twoSlabs (newSubgrid 0 0 0 2 1 1 0 0 0 0) c := by
    unfold Known
    decide
  refine ((interiorAgrees_iff twoSlabs _ (by decide) fullSolid rfl _).2 ?_).mpr fun c hc _ => hknown c hc
  simp only [Axis.forall]
  decide

/-- The second layer of cells around the first slab lies within the ghost layers, and is missed. -/
theorem twoSlabs_not_interiorAgrees :
    ¬ ∀ (L : Layout) (s : Subgrid) (solid : GrGeomSolid) (region : Subgrid), L.own s.process = [s] →
      solid.interiorBoxes = none → region.cells ⊆ (Indicator.mk s fun _ => 0).boundingBox.cells →
        InteriorAgrees L s solid region := by
  intro h
  let region := newSubgrid 0 0 0 4 1 1 0 0 0 0
  let slab := newSubgrid 0 0 0 2 1 1 0 0 0 0
  have hown : twoSlabs.own slab.process = [slab] := by decide
  have hregion : region.cells ⊆ (Indicator.mk slab fun _ => 0).boundingBox.cells := by
    have hsides : ∀ a : Axis, slab.lo a - 4 ≤ region.lo a ∧ region.lo a + region.num a ≤ slab.lo a + slab.num a + 4 := by
      simp only [Axis.forall]
      decide
    refine fun c hc => Box.mem_cells.mpr fun a => ?_
    have hside := hsides a
    have hca := mem_cells_axis.mp hc a
    simp only [Indicator.boundingBox, coord_mk, numGhost]
    omega
  have hunknown : ¬ Known twoSlabs slab (3, 0, 0) := by
    unfold Known
    decide
  have hcell : ((3, 0, 0) : Cell) ∈ region.cells := by decide
  exact hunknown (((interiorAgrees_iff_known hown rfl).mp (h twoSlabs slab fullSolid region hown rfl hregion)).2 _
    hcell (interior_fullSolid (by simp [InCube])))

end ParFlow.Geom

/-! The loops over the boundary faces of a solid or of a patch along boxes. For each face
direction the boxes hold the known cells with that face, so that the loops along them agree
with the octree loops inside the subgrid. -/

namespace ParFlow.Geom

open FuelRun Cover Clustering Subregion

variable {L : Layout} {s region : Subgrid} {holds : Cell × Face → Prop}

/-- The boxes of every face direction tile the known cells with that face. -/
def FaceTiles (L : Layout) (s : Subgrid) (holds : Cell × Face → Prop) (boxes : Face → BoxList) : Prop :=
  ∀ f, Exact Box.cells (boxes f) {c | Known L s c ∧ holds (c, f)}

theorem computeFaceBoxes_returns {loop : ℕ → Subgrid → Except Fault (List (Cell × Face))}
    (hL : ∀ t ∈ L.allSubgrids, ∀ a, 0 ≤ t.lo a) (hs : L.own s.process = [s])
    (hloop : ∀ t ∈ L.allSubgrids, ∃ out, Returns (fun fuel => loop fuel t) out ∧ Selects Prod.fst holds t out) :
    ∃ boxes, Returns (fun fuel => computeFaceBoxes fuel L.allSubgrids s (loop fuel)) (Face.all.map boxes) ∧
      FaceTiles L s holds boxes := by
  have hsL : s ∈ L.allSubgrids := (Layout.mem_own.mp (hs ▸ List.mem_cons_self)).1
  obtain ⟨tags, htags, hmem, -⟩ := exchange_returns (fun x b => x &&& faceTag b.2 ≠ 0) hs hloop
    fun visited b => tagFaces_bit visited b.1 b.2
  have htagged : ∀ f c, (Indicator.mk s tags).Tagged (faceTag f) c ↔ Known L s c ∧ holds (c, f) :=
    fun f c => hmem (c, f)
  have hcluster : ∀ f, ∃ boxes, Returns (fun fuel => bergerRigoutsos fuel ⟨s, tags⟩ (1, 1, 1) (faceTag f) []) boxes ∧
      Tiles ⟨s, tags⟩ (faceTag f) (Indicator.mk s tags).boundingBox boxes :=
    fun f => bergerRigoutsos_returns (avoids_of_layout hL hsL fun c hc => ((htagged f c).mp hc).1)
  choose boxes hret htile using hcluster
  refine ⟨boxes, ?_, fun f => (htile f).1.congr fun c => ?_⟩
  · simp only [computeFaceBoxes]
    rw [returns_bind_iff htags]
    exact returns_mapM fun f _ => hret f
  · rw [Finset.mem_coe, mem_tagsIn, htagged]
    exact ⟨fun h => h.2, fun h => ⟨h.1.mem_boundingBox _, h⟩⟩

/-- The boxes are stored by the index of their face. -/
theorem getElem?_index (boxes : Face → BoxList) (f : Face) : (Face.all.map boxes)[f.index]? = some (boxes f) := by
  cases f <;> rfl

theorem faceLoopBoxes_selects {boxes : Face → BoxList} (h : FaceTiles L s holds boxes) (hr : region.cells ⊆ s.cells) :
    ∃ out, faceLoopBoxes (fun f => some (boxes f)) region = .ok out ∧ Selects Prod.fst holds region out := by
  have hsel := fun f => clipLoop_selects (h f) region
  refine ⟨(Face.all.map fun f => (boxes f).flatMap fun box => (clipLoop region box).map fun c => (c, f)).flatten, rfl, ?_⟩
  simp only [← List.map_flatMap]
  refine ⟨List.nodup_flatten.mpr ⟨?_, ?_⟩, fun b => ?_⟩
  · intro l hl
    obtain ⟨f, -, rfl⟩ := List.mem_map.mp hl
    exact (hsel f).1.map fun c c' hc => (Prod.mk.inj hc).1
  · rw [List.pairwise_map]
    refine (by decide : Face.all.Nodup).imp fun {f g} hfg => List.disjoint_left.mpr fun b hb hb' => ?_
    obtain ⟨c, -, rfl⟩ := List.mem_map.mp hb
    obtain ⟨c', -, hc'⟩ := List.mem_map.mp hb'
    exact hfg (Prod.mk.inj hc').2.symm
  · have hall : b.2 ∈ Face.all := by cases b.2 <;> decide
    simp only [List.mem_flatten, List.mem_map, exists_exists_and_eq_and, (hsel _).2]
    constructor
    · rintro ⟨f, -, c, ⟨hc, -, hf⟩, rfl⟩
      exact ⟨hc, hf⟩
    · rintro ⟨hc, hf⟩
      exact ⟨b.2, hall, b.1, ⟨hc, Or.inl (hr hc), hf⟩, rfl⟩

/-- The common part of the surface and the patches. -/
theorem faceBoxes_agree {loop : ℕ → Subgrid → Except Fault (List (Cell × Face))}
    {octreeLoop : ℕ → Except Fault (List (Cell × Face))} {store : List BoxList → GrGeomSolid}
    {boxesOf : GrGeomSolid → Face → Option BoxList} (hL : ∀ t ∈ L.allSubgrids, ∀ a, 0 ≤ t.lo a)
    (hs : L.own s.process = [s]) (hr : region.cells ⊆ s.cells)
    (hloop : ∀ t ∈ L.allSubgrids, ∃ out, Returns (fun fuel => loop fuel t) out ∧ Selects Prod.fst holds t out)
    (hoctree : ∃ slow, Returns octreeLoop slow ∧ Selects Prod.fst holds region slow)
    (hstore : ∀ lists f, boxesOf (store lists) f = lists[f.index]?) :
    LoopsAgree (fun fuel => do
        let boxes ← computeFaceBoxes fuel L.allSubgrids s (loop fuel)
        .ok (store boxes))
      (fun solid => faceLoopBoxes (boxesOf solid) region) octreeLoop := by
  obtain ⟨boxes, hret, htiles⟩ := computeFaceBoxes_returns hL hs hloop
  obtain ⟨fast, hfast, hsel⟩ := faceLoopBoxes_selects htiles hr
  obtain ⟨slow, hslow, hsel'⟩ := hoctree
  have hboxes : boxesOf (store (Face.all.map boxes)) = fun f => some (boxes f) :=
    funext fun f => (hstore _ f).trans (getElem?_index boxes f)
  refine ⟨store (Face.all.map boxes), fast, slow, (returns_bind_iff hret).mpr (returns_const _), ?_, hslow, hsel.1,
    hsel.perm hsel'⟩
  simp only [hboxes, hfast]

/-- Inside a subgrid the loops along the boxes of the surface and of every patch run over the faces
that the octree loops run over. -/
theorem faceLoops_agree (L : Layout) (hL : ∀ t ∈ L.allSubgrids, ∀ a, 0 ≤ t.lo a) (s : Subgrid)
    (hs : L.own s.process = [s]) (region : Subgrid) (hr : region.cells ⊆ s.cells) (solid : GrGeomSolid) :
    (solid.surfaceBoxes .F = none →
      LoopsAgree (fun fuel => computeSurfaceBoxes fuel L.allSubgrids s solid)
        (fun solid' => grGeomSurfLoopBoxes solid' region)
        fun fuel => octreeFaceLoop fuel (solid.origin s.rx) solid.data (solid.levelAt s.rx) region) ∧
    ∀ patch : Fin solid.patches.length, solid.patchBoxes patch .F = none →
      LoopsAgree (fun fuel => computePatchBoxes fuel L.allSubgrids s solid patch)
        (fun solid' => grGeomPatchLoopBoxes solid' patch region)
        fun fuel => octreeFaceLoop fuel (solid.origin s.rx) (solid.patches.get patch) (solid.levelAt s.rx) region := by
  have hsL : s ∈ L.allSubgrids := (Layout.mem_own.mp (hs ▸ List.mem_cons_self)).1
  refine ⟨fun hnone => ?_, fun patch hnone => ?_⟩
  · refine faceBoxes_agree hL hs hr (fun t ht => ?_) (octreeFaceLoop_selects _ _ _ _) fun _ _ => rfl
    simp only [grGeomSurfLoop, hnone, Option.isSome_none, Bool.false_eq_true, and_false, if_false,
      (L.sameRes t ht s hsL).1]
    exact octreeFaceLoop_selects _ _ _ _
  · refine faceBoxes_agree hL hs hr (fun t ht => ?_) (octreeFaceLoop_selects _ _ _ _) fun lists f => ?_
    · simp only [grGeomPatchLoop, hnone, Option.isSome_none, Bool.false_eq_true, and_false, if_false,
        (L.sameRes t ht s hsL).1]
      exact octreeFaceLoop_selects _ _ _ _
    · exact congrFun (Function.update_self patch.val (fun f => lists[f.index]?) solid.patchBoxes) f

/-- A solid with left and lower faces, and a patch of its left faces. -/
def cornerSolid : GrGeomSolid :=
  grGeomNewSolid (.leaf ⟨false, false, true, false⟩ 5) [.leaf ⟨false, false, true, false⟩ 1] 1 0 0 0

theorem pair_faceLoops_agree :
    LoopsAgree (fun fuel => computeSurfaceBoxes fuel Layout.pair.allSubgrids (newSubgrid 0 0 0 1 1 1 0 0 0 0) cornerSolid)
      (fun solid => grGeomSurfLoopBoxes solid (newSubgrid 0 0 0 1 1 1 0 0 0 0))
      (fun fuel => octreeFaceLoop fuel (0, 0, 0) cornerSolid.data 1 (newSubgrid 0 0 0 1 1 1 0 0 0 0)) ∧
    LoopsAgree (fun fuel => computePatchBoxes fuel Layout.pair.allSubgrids (newSubgrid 0 0 0 1 1 1 0 0 0 0) cornerSolid
        ⟨0, by decide⟩)
      (fun solid => grGeomPatchLoopBoxes solid 0 (newSubgrid 0 0 0 1 1 1 0 0 0 0))
      fun fuel => octreeFaceLoop fuel (0, 0, 0) (.leaf ⟨false, false, true, false⟩ 1) 1
        (newSubgrid 0 0 0 1 1 1 0 0 0 0) := by
  have hL : ∀ t ∈ Layout.pair.allSubgrids, ∀ a, 0 ≤ t.lo a := by
    simp only [Axis.forall]
    decide
  have h := faceLoops_agree Layout.pair hL (newSubgrid 0 0 0 1 1 1 0 0 0 0) (by decide) _ subset_rfl cornerSolid
  exact ⟨h.1 rfl, h.2 ⟨0, by decide⟩ rfl⟩

end ParFlow.Geom
