import ParFlow.Geom.MaskFaces
import ParFlow.Geom.MaskDefs
import ParFlow.Lib.TriangleSurface

/-! The surface that `pfmask-to-pfsol` builds is closed, for every pattern of cells. -/

namespace ParFlow.Mask

open IntLoop TriangleSurface

/-! ## Compaction -/

section Compaction

variable {K : Type}

theorem foldl_markUsed (l : List ℤ) (vertices : ℤ → Vertex K) (n : ℤ) :
    l.foldl markUsed vertices n = if n ∈ l then { vertices n with used := true } else vertices n := by
  induction l generalizing vertices with
  | nil => simp
  | cons m l ih =>
    rw [List.foldl_cons, ih]
    by_cases hnm : n = m
    · subst hnm
      simp [markUsed]
    · simp [markUsed, hnm]

/-- The places that are used, in order. -/
def keptPlaces (vertices : ℤ → Vertex K) (l : List ℤ) : List ℤ := l.filter fun n => (vertices n).used

/-- A vertex with its place among those that are used. -/
def namedVertex (vertices : ℤ → Vertex K) (l : List ℤ) (n : ℤ) : Vertex K :=
  { vertices n with newIndex := ((keptPlaces vertices l).idxOf n : ℤ) }

theorem foldl_compactVertex (vertices : ℤ → Vertex K) {l : List ℤ} (hl : l.Nodup) :
    l.foldl compactVertex ⟨vertices, 0, []⟩ =
      ⟨fun n => if n ∈ keptPlaces vertices l then namedVertex vertices l n else vertices n,
        ((keptPlaces vertices l).length : ℤ), (keptPlaces vertices l).map (namedVertex vertices l)⟩ := by
  induction l using List.reverseRecOn with
  | nil => simp [keptPlaces]
  | append_singleton l n ih =>
    obtain ⟨hl, -, hdisj⟩ := List.nodup_append.mp hl
    have hnl : n ∉ l := fun h => hdisj n h n List.mem_cons_self rfl
    have hnkept : n ∉ keptPlaces vertices l := fun h => hnl (List.mem_of_mem_filter h)
    rw [List.foldl_append, List.foldl_cons, List.foldl_nil, ih hl]
    unfold compactVertex
    simp only [if_neg hnkept]
    by_cases hused : (vertices n).used
    · have hkept : keptPlaces vertices (l ++ [n]) = keptPlaces vertices l ++ [n] := by
        simp [keptPlaces, hused]
      have hlast : namedVertex vertices (l ++ [n]) n =
          { vertices n with newIndex := ((keptPlaces vertices l).length : ℤ) } := by
        rw [namedVertex, hkept, List.idxOf_append_of_notMem hnkept, List.idxOf_cons_self, add_zero]
      have hother : ∀ m ∈ keptPlaces vertices l, namedVertex vertices (l ++ [n]) m = namedVertex vertices l m := by
        intro m hm
        rw [namedVertex, hkept, List.idxOf_append_of_mem hm]
        rfl
      rw [if_pos hused, hkept, List.length_append, List.map_append, List.map_congr_left hother, List.map_cons, hlast]
      congr 1
      funext m
      rcases eq_or_ne m n with rfl | hne
      · rw [Function.update_self, if_pos (List.mem_append_right _ List.mem_cons_self), hlast]
      · rw [Function.update_of_ne hne]
        have hmem : m ∈ keptPlaces vertices l ++ [n] ↔ m ∈ keptPlaces vertices l := by simp [hne]
        by_cases hm : m ∈ keptPlaces vertices l
        · rw [if_pos hm, if_pos (hmem.mpr hm), hother m hm]
        · rw [if_neg hm, if_neg (mt hmem.mp hm)]
    · have hkept : keptPlaces vertices (l ++ [n]) = keptPlaces vertices l := by
        simp [keptPlaces, hused]
      have hnamed : namedVertex vertices (l ++ [n]) = namedVertex vertices l := by
        funext m
        rw [namedVertex, hkept]
        rfl
      rw [if_neg hused, hkept, hnamed]

end Compaction

/-! ## The faces of the cells -/

def MaskName.toSide : MaskName → Side
  | .top => .top
  | .bottom => .bottom
  | .left => .west
  | .right => .east
  | .front => .south
  | .back => .north

/-- The triangles of the six blocks, with the corners of the cell. -/
def maskCorners : Side → List (Corner × Corner × Corner)
  | .top => [((false, false, true), (true, false, true), (true, true, true)),
      ((false, false, true), (true, true, true), (false, true, true))]
  | .bottom => [((false, false, false), (true, true, false), (true, false, false)),
      ((false, false, false), (false, true, false), (true, true, false))]
  | .west => [((false, false, false), (false, false, true), (false, true, false)),
      ((false, false, true), (false, true, true), (false, true, false))]
  | .east => [((true, true, false), (true, false, true), (true, false, false)),
      ((true, false, true), (true, true, false), (true, true, true))]
  | .south => [((false, false, false), (true, false, false), (true, false, true)),
      ((false, false, false), (true, false, true), (false, false, true))]
  | .north => [((true, true, true), (true, true, false), (false, true, false)),
      ((false, true, true), (true, true, true), (false, true, false))]

def maskPattern : BoxPattern where
  faces := maskCorners
  box := by decide +kernel
  contains := by decide +kernel
  acrossX := by decide +kernel
  acrossY := by decide +kernel

section Faces

variable (nx ny : ℤ) (ind : MaskName → ℤ → ℤ)

/-- The cells of the loop. -/
def maskCells : List (ℤ × ℤ) := (upto 0 ny).flatMap fun j => (upto 0 nx).map fun i => (i, j)

/-- The cells that are not zero. -/
def solidCells : Finset (ℤ × ℤ) := ((maskCells nx ny).filter fun c => ind .top (triangleIndex nx ny c.1 c.2 0) ≠ 0).toFinset

/-- The exposed faces, in the order of the cells and of the blocks. -/
def solidFaces : List ((ℤ × ℤ) × Side) := (maskCells nx ny ×ˢ Side.all).filter fun f => Exposed (solidCells nx ny ind) f

/-- The number of a point. -/
def pointNumber (p : ℤ × ℤ × Bool) : ℤ := vertexIndex nx ny p.1 p.2.1 p.2.2.toNat

variable {nx ny ind} {c : ℤ × ℤ} {i j : ℤ}

theorem mem_maskCells : c ∈ maskCells nx ny ↔ (0 ≤ c.1 ∧ c.1 < nx) ∧ 0 ≤ c.2 ∧ c.2 < ny := by
  rw [maskCells, mem_rows, mem_upto, mem_upto]

theorem mem_solidCells : c ∈ solidCells nx ny ind ↔
    ((0 ≤ c.1 ∧ c.1 < nx) ∧ 0 ≤ c.2 ∧ c.2 < ny) ∧ ind .top (triangleIndex nx ny c.1 c.2 0) ≠ 0 := by
  rw [solidCells, List.mem_toFinset, List.mem_filter, mem_maskCells, decide_eq_true_iff]

theorem mem_solidFaces (f : (ℤ × ℤ) × Side) : f ∈ solidFaces nx ny ind ↔ Exposed (solidCells nx ny ind) f := by
  rw [solidFaces, List.mem_filter, List.mem_product, decide_eq_true_iff]
  exact ⟨fun h => h.2, fun h => ⟨⟨mem_maskCells.mpr (mem_solidCells.mp h.1).1, f.2.mem_all⟩, h⟩⟩

theorem solidFaces_nodup (nx ny : ℤ) (ind : MaskName → ℤ → ℤ) : (solidFaces nx ny ind).Nodup :=
  (List.Nodup.product (rows_nodup (upto_nodup 0 ny) (upto_nodup 0 nx)) (by decide)).filter _

theorem patchTriangles_eq (i j : ℤ) (name : MaskName) (patch : ℤ) : (patchTriangles nx ny i j name patch).map Triangle.v =
    maskPattern.faceTriangles (pointNumber nx ny) ((i, j), name.toSide) := by
  cases name <;>
    simp [patchTriangles, faceTriangles, BoxPattern.faceTriangles, maskPattern, maskCorners, mapCorners, cornerPoint, pointNumber,
      MaskName.toSide]

/-- The blocks of a cell that run are those of its exposed faces. -/
theorem side_exposed_iff (hc : ((0 ≤ i ∧ i < nx) ∧ 0 ≤ j ∧ j < ny)) (hsolid : ind .top (triangleIndex nx ny i j 0) ≠ 0) :
    (Exposed (solidCells nx ny ind) ((i, j), .west) ↔ i = 0 ∨ ind .top (triangleIndex nx ny (i - 1) j 0) = 0) ∧
    (Exposed (solidCells nx ny ind) ((i, j), .east) ↔ i = nx - 1 ∨ ind .top (triangleIndex nx ny (i + 1) j 0) = 0) ∧
    (Exposed (solidCells nx ny ind) ((i, j), .south) ↔ j = 0 ∨ ind .top (triangleIndex nx ny i (j - 1) 0) = 0) ∧
    (Exposed (solidCells nx ny ind) ((i, j), .north) ↔ j = ny - 1 ∨ ind .top (triangleIndex nx ny i (j + 1) 0) = 0) := by
  have hmem : ((i, j) : ℤ × ℤ) ∈ solidCells nx ny ind := mem_solidCells.mpr ⟨hc, hsolid⟩
  simp only [Exposed, hmem, true_and, reduceCtorEq, false_or, Side.offset, Prod.mk_add_mk, mem_solidCells, add_zero,
    ← sub_eq_add_neg, not_and_or, not_not]
  refine ⟨or_congr_left ?_, or_congr_left ?_, or_congr_left ?_, or_congr_left ?_⟩ <;> omega

theorem cellTriangles_eq (hc : c ∈ maskCells nx ny) : (cellTriangles nx ny ind c.1 c.2).map Triangle.v =
    (Side.all.filter fun side => Exposed (solidCells nx ny ind) (c, side)).flatMap fun side =>
      maskPattern.faceTriangles (pointNumber nx ny) (c, side) := by
  have hdom := mem_maskCells.mp hc
  by_cases hsolid : ind .top (triangleIndex nx ny c.1 c.2 0) = 0
  · have hnone : Side.all.filter (fun side => Exposed (solidCells nx ny ind) (c, side)) = [] :=
      List.filter_eq_nil_iff.mpr fun side _ h => (mem_solidCells.mp (of_decide_eq_true h).1).2 hsolid
    unfold cellTriangles
    dsimp only
    rw [hnone, if_neg (not_not.mpr hsolid)]
    rfl
  · obtain ⟨hwest, heast, hsouth, hnorth⟩ := side_exposed_iff hdom hsolid
    have hmem : c ∈ solidCells nx ny ind := mem_solidCells.mpr ⟨hdom, hsolid⟩
    have htop : Exposed (solidCells nx ny ind) (c, .top) := ⟨hmem, Or.inl rfl⟩
    have hbottom : Exposed (solidCells nx ny ind) (c, .bottom) := ⟨hmem, Or.inr (Or.inl rfl)⟩
    have hone : ∀ (p : Prop) [Decidable p] (side : Side), (if decide p = true then [side] else []).flatMap
        (fun side => maskPattern.faceTriangles (pointNumber nx ny) (c, side)) =
          if p then maskPattern.faceTriangles (pointNumber nx ny) (c, side) else [] := by
      intro p _ side
      by_cases hp : p <;> simp [hp]
    have hmap : ∀ (p : Prop) [Decidable p] (l : List Triangle), (if p then l else []).map Triangle.v =
        if p then l.map Triangle.v else [] := by
      intro p _ l
      by_cases hp : p <;> simp [hp]
    have hfilter : Side.all.filter (fun side => Exposed (solidCells nx ny ind) (c, side)) =
        [.top] ++ [.bottom] ++ (if decide (Exposed (solidCells nx ny ind) (c, .west)) = true then [.west] else []) ++
        (if decide (Exposed (solidCells nx ny ind) (c, .east)) = true then [.east] else []) ++
        (if decide (Exposed (solidCells nx ny ind) (c, .south)) = true then [.south] else []) ++
        (if decide (Exposed (solidCells nx ny ind) (c, .north)) = true then [.north] else []) := by
      simp only [Side.all, List.filter_cons, List.filter_nil, htop, hbottom, decide_true, if_true]
      split_ifs <;> rfl
    rw [hfilter]
    simp only [List.flatMap_append, hone, List.flatMap_singleton, hwest, heast, hsouth, hnorth]
    unfold cellTriangles
    dsimp only
    rw [if_pos hsolid]
    simp only [List.map_append, hmap, patchTriangles_eq]
    rfl

theorem buildTriangles_eq (nx ny : ℤ) (ind : MaskName → ℤ → ℤ) : (buildTriangles nx ny ind).map Triangle.v =
    (solidFaces nx ny ind).flatMap (maskPattern.faceTriangles (pointNumber nx ny)) := by
  have hcells : buildTriangles nx ny ind = (maskCells nx ny).flatMap fun c => cellTriangles nx ny ind c.1 c.2 := by
    unfold buildTriangles maskCells
    rw [List.flatMap_assoc]
    simp only [List.flatMap_map]
  have hfaces : solidFaces nx ny ind = (maskCells nx ny).flatMap fun c =>
      (Side.all.filter fun side => Exposed (solidCells nx ny ind) (c, side)).map (Prod.mk c) := by
    unfold solidFaces
    rw [show maskCells nx ny ×ˢ Side.all = (maskCells nx ny).flatMap fun c => Side.all.map (Prod.mk c) from rfl,
      List.filter_flatMap]
    refine List.flatMap_congr fun c _ => ?_
    rw [List.filter_map]
    rfl
  rw [hcells, hfaces, List.map_flatMap, List.flatMap_assoc]
  refine List.flatMap_congr fun c hc => ?_
  rw [cellTriangles_eq hc, List.flatMap_map]

end Faces

/-! ## Used vertices -/

section Used

variable {nx ny : ℤ} {ind : MaskName → ℤ → ℤ} {c : ℤ × ℤ} {n : ℤ}

/-- The corners of the triangles are corners of cells that are not zero. -/
theorem exists_corner {t : Triangle} (ht : t ∈ buildTriangles nx ny ind) (hn : n ∈ corners t.v) :
    ∃ c ∈ solidCells nx ny ind, ∃ p : Corner, n = pointNumber nx ny (cornerPoint c p) := by
  have hmem := List.mem_map_of_mem (f := Triangle.v) ht
  rw [buildTriangles_eq, List.mem_flatMap] at hmem
  obtain ⟨f, hf, hmem⟩ := hmem
  obtain ⟨t', -, heq⟩ := List.mem_map.mp hmem
  refine ⟨f.1, ((mem_solidFaces f).mp hf).1, ?_⟩
  rw [← heq] at hn
  simp only [corners, mapCorners, Finset.mem_insert, Finset.mem_singleton] at hn
  rcases hn with rfl | rfl | rfl
  · exact ⟨t'.1, rfl⟩
  · exact ⟨t'.2.1, rfl⟩
  · exact ⟨t'.2.2, rfl⟩

/-- The blocks of top and bottom mark all eight corners. -/
theorem corner_mem_cellMarks (hsolid : ind .top (triangleIndex nx ny c.1 c.2 0) ≠ 0) (p : Corner) :
    pointNumber nx ny (cornerPoint c p) ∈ cellMarks nx ny ind c.1 c.2 := by
  have hcaps : pointNumber nx ny (cornerPoint c p) ∈ faceMarks nx ny c.1 c.2 .top ++ faceMarks nx ny c.1 c.2 .bottom := by
    obtain ⟨x, y, z⟩ := p
    cases x <;> cases y <;> cases z <;> simp [pointNumber, cornerPoint, faceMarks]
  unfold cellMarks
  dsimp only
  rw [if_pos hsolid]
  exact List.mem_append_left _ (List.mem_append_left _ (List.mem_append_left _ (List.mem_append_left _ hcaps)))

theorem markVertices_used {K : Type} (vertices : ℤ → Vertex K) (hc : c ∈ solidCells nx ny ind) (p : Corner) :
    (markVertices nx ny ind vertices (pointNumber nx ny (cornerPoint c p))).used = true := by
  obtain ⟨⟨hi, hj⟩, hsolid⟩ := mem_solidCells.mp hc
  unfold markVertices
  rw [foldl_markUsed, if_pos]
  simp only [List.mem_flatMap, mem_upto]
  exact ⟨c.2, hj, c.1, hi, corner_mem_cellMarks hsolid p⟩

theorem pointNumber_bounds (hc : c ∈ solidCells nx ny ind) (p : Corner) :
    0 ≤ pointNumber nx ny (cornerPoint c p) ∧ pointNumber nx ny (cornerPoint c p) < (nx + 1) * (ny + 1) * 2 := by
  obtain ⟨⟨hi, hj⟩, -⟩ := mem_solidCells.mp hc
  have hbit : ∀ b : Bool, 0 ≤ (b.toNat : ℤ) ∧ (b.toNat : ℤ) ≤ 1 := by decide
  obtain ⟨hx, hx'⟩ := hbit p.1
  obtain ⟨hy, hy'⟩ := hbit p.2.1
  obtain ⟨hz, hz'⟩ := hbit p.2.2
  have hrow : 0 ≤ (c.2 + p.2.1.toNat) * (nx + 1) := mul_nonneg (by omega) (by omega)
  have hrow' : (c.2 + p.2.1.toNat) * (nx + 1) ≤ ny * (nx + 1) := mul_le_mul_of_nonneg_right (by omega) (by omega)
  have hlayer : 0 ≤ (nx + 1) * (ny + 1) * (p.2.2.toNat : ℤ) := mul_nonneg (mul_nonneg (by omega) (by omega)) hz
  have hlayer' : (nx + 1) * (ny + 1) * (p.2.2.toNat : ℤ) ≤ (nx + 1) * (ny + 1) * 1 :=
    mul_le_mul_of_nonneg_left hz' (mul_nonneg (by omega) (by omega))
  have htotal : (nx + 1) * (ny + 1) = ny * (nx + 1) + nx + 1 := by ring
  unfold pointNumber vertexIndex cornerPoint
  dsimp only
  constructor <;> omega

end Used

/-! ## The surface -/

/-- Every corner of a triangle is a used vertex with a place of its own among the new ones, the triangles are those of the
exposed faces, two for each, and they make a closed surface. -/
structure ClosedMaskSurface {K : Type} (nx ny : ℤ) (ind : MaskName → ℤ → ℤ) (S : MaskSurface K) : Prop where
  used : ∀ t ∈ buildTriangles nx ny ind, ∀ n ∈ corners t.v, (0 ≤ n ∧ n < (nx + 1) * (ny + 1) * 2) ∧ (S.vertices n).used ∧
    0 ≤ (S.vertices n).newIndex ∧ S.newVertices[(S.vertices n).newIndex.toNat]? = some (S.vertices n)
  distinct : ∀ m n, (0 ≤ m ∧ m < (nx + 1) * (ny + 1) * 2) → (0 ≤ n ∧ n < (nx + 1) * (ny + 1) * 2) → (S.vertices m).used →
    (S.vertices n).used → (S.vertices m).newIndex = (S.vertices n).newIndex → m = n
  triangles : S.triangles = (buildTriangles nx ny ind).map (reindex S.vertices)
  closed : Closed ((buildTriangles nx ny ind).map Triangle.v)
  reindexed : Closed (S.triangles.map Triangle.v)
  faces : ∃ faces : List ((ℤ × ℤ) × Side), faces.Nodup ∧ (∀ f, f ∈ faces ↔ Exposed (solidCells nx ny ind) f) ∧
    (buildTriangles nx ny ind).map Triangle.v = faces.flatMap (maskPattern.faceTriangles (pointNumber nx ny))
  splits : ∀ c ∈ solidCells nx ny ind, ∀ name : MaskName, ∃ first second,
    maskPattern.faceTriangles (pointNumber nx ny) (c, name.toSide) = [first, second] ∧
      SplitsFace nx ny c.1 c.2 name (first, second)

theorem buildSurface_closed {K : Type} [Field K] (nx ny : ℤ) (ind : MaskName → ℤ → ℤ) (origin spacing : K × K × K)
    (vertices : ℤ → Vertex K) : ClosedMaskSurface nx ny ind (buildSurface nx ny ind origin spacing vertices) := by
  let marked := markVertices nx ny ind (buildVertices nx ny origin spacing vertices)
  let places := upto 0 ((nx + 1) * (ny + 1) * 2)
  have hcompact : compactVertices nx ny marked = _ := foldl_compactVertex marked (upto_nodup _ _)
  have hvertices : (buildSurface nx ny ind origin spacing vertices).vertices =
      fun n => if n ∈ keptPlaces marked places then namedVertex marked places n else marked n :=
    congrArg Compaction.vertices hcompact
  have hnew : (buildSurface nx ny ind origin spacing vertices).newVertices =
      (keptPlaces marked places).map (namedVertex marked places) := congrArg Compaction.newVertices hcompact
  have hkept : ∀ n, (0 ≤ n ∧ n < (nx + 1) * (ny + 1) * 2) → (marked n).used = true →
      n ∈ keptPlaces marked places := fun n hn hused => List.mem_filter.mpr ⟨mem_upto.mpr hn, hused⟩
  have hused : ∀ n, ((buildSurface nx ny ind origin spacing vertices).vertices n).used = (marked n).used := by
    intro n
    rw [hvertices]
    dsimp only
    split_ifs <;> rfl
  have hclosed : Closed ((buildTriangles nx ny ind).map Triangle.v) := by
    rw [buildTriangles_eq]
    exact maskPattern.exposed_closed _ _ (solidFaces_nodup nx ny ind) mem_solidFaces
  refine ⟨fun t ht n hn => ?_, fun m n hm hn hmused hnused heq => ?_, rfl, hclosed, ?_, ?_, fun c hc name => ?_⟩
  · obtain ⟨c, hc, p, rfl⟩ := exists_corner ht hn
    have hmark : (marked (pointNumber nx ny (cornerPoint c p))).used = true := markVertices_used _ hc p
    have hplace := hkept _ (pointNumber_bounds hc p) hmark
    refine ⟨pointNumber_bounds hc p, (hused _).trans hmark, ?_⟩
    rw [hvertices, hnew]
    dsimp only
    rw [if_pos hplace]
    refine ⟨Int.natCast_nonneg _, ?_⟩
    rw [List.getElem?_map, namedVertex, Int.toNat_natCast, List.getElem?_idxOf hplace]
    rfl
  · have hm' := hkept m hm ((hused m).symm.trans hmused)
    have hn' := hkept n hn ((hused n).symm.trans hnused)
    rw [hvertices] at heq
    dsimp only at heq
    rw [if_pos hm', if_pos hn'] at heq
    exact (List.idxOf_inj hm').mp (Int.ofNat.inj heq)
  · have hmap := hclosed.map fun n => ((buildSurface nx ny ind origin spacing vertices).vertices n).newIndex
    rw [List.map_map] at hmap
    show Closed (((buildTriangles nx ny ind).map (reindex _)).map Triangle.v)
    rw [List.map_map]
    exact hmap
  · exact ⟨_, solidFaces_nodup nx ny ind, mem_solidFaces, buildTriangles_eq nx ny ind⟩
  · obtain ⟨⟨hi, hj⟩, -⟩ := mem_solidCells.mp hc
    exact ⟨_, _, (patchTriangles_eq c.1 c.2 name 0).symm, faceTriangles_splitsFace hi hj name⟩

end ParFlow.Mask
