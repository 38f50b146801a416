import ParFlow.Comm.ComputeDefs
import ParFlow.Cluster.ClusterExact

/-! Clustering of translated tags. Everything the algorithm computes moves along with the
tags, except a midpoint that is rounded up on one side of zero and down on the other. -/

namespace ParFlow.Clustering

open FuelRun Relation IntLoop

def Box.shift (B : Box) (w : Cell) : Box := ⟨B.lo + w, B.up + w⟩

/-- The tags, moved by `w` with their subgrid. -/
def Indicator.shift (v : Indicator) (w : Cell) : Indicator := ⟨v.subgrid.shift w, fun c => v.tags (c - w)⟩

variable {v : Indicator} {tag : BitVec 32} {B B' : Box} {w c : Cell} {a : Axis} {T : Finset Cell}
  {h h' : HistogramBox}

@[simp] theorem coord_add (a : Axis) (c w : Cell) : a.coord (c + w) = a.coord c + a.coord w := by cases a <;> rfl

@[simp] theorem coord_sub (a : Axis) (c w : Cell) : a.coord (c - w) = a.coord c - a.coord w := by cases a <;> rfl

/-! ## Boxes and tags -/

theorem numberCells_shift (B : Box) (w : Cell) : (B.shift w).numberCells = B.numberCells := by
  funext a
  simp only [Box.numberCells, Box.shift, coord_add]
  ring

theorem size_shift (B : Box) (w : Cell) : (B.shift w).size = B.size := by
  rw [Box.size, numberCells_shift, Box.size]

theorem mem_cells_shift : c ∈ (B.shift w).cells ↔ c - w ∈ B.cells := by
  simp only [Box.mem_cells, Box.shift, coord_add, coord_sub]
  refine forall_congr' fun a => ?_
  omega

theorem shift_cut (i : ℤ) : (B.cut a i).1.shift w = ((B.shift w).cut a (i + a.coord w)).1 ∧
    (B.cut a i).2.shift w = ((B.shift w).cut a (i + a.coord w)).2 := by
  have hset : ∀ (p : Point) (i : ℤ) (b : Axis),
      b.coord (Point.set p a i + w) = b.coord (Point.set (p + w) a (i + a.coord w)) := by
    intro p i b
    simp only [coord_add, coord_set]
    split_ifs with hb
    · rw [hb]
    · rfl
  refine ⟨Box.ext_of_axis (fun _ => rfl) (hset B.up i), Box.ext_of_axis (fun b => ?_) fun _ => rfl⟩
  rw [Box.shift, Box.cut, hset, add_right_comm]
  rfl

theorem boundingBox_shift (v : Indicator) (w : Cell) : (v.shift w).boundingBox = v.boundingBox.shift w := by
  have hlo : ∀ a, (v.subgrid.shift w).lo a = v.subgrid.lo a + a.coord w := fun a => by cases a <;> rfl
  have hnum : ∀ a, (v.subgrid.shift w).num a = v.subgrid.num a := fun a => by cases a <;> rfl
  refine Box.ext_of_axis (fun a => ?_) fun a => ?_
  all_goals
    simp only [Indicator.boundingBox, Indicator.shift, Box.shift, coord_mk, coord_add, hlo, hnum]
    ring

theorem Box.Within.shift (hB : B.Within B') (w : Cell) : (B.shift w).Within (B'.shift w) := by
  intro a
  simp only [Box.shift, coord_add]
  have := hB a
  omega

/-- The cells of `T`, moved by `w`. -/
def shiftCells (T : Finset Cell) (w : Cell) : Finset Cell := T.map (addRightEmbedding w)

theorem mem_shiftCells : c ∈ shiftCells T w ↔ c - w ∈ T := by
  simp only [shiftCells, Finset.mem_map, addRightEmbedding_apply]
  constructor
  · rintro ⟨d, hd, rfl⟩
    rwa [add_sub_cancel_right]
  · intro hc
    exact ⟨c - w, hc, sub_add_cancel c w⟩

theorem tagsIn_shift (v : Indicator) (tag : BitVec 32) (B : Box) (w : Cell) :
    tagsIn (v.shift w) tag (B.shift w) = shiftCells (tagsIn v tag B) w := by
  ext c
  rw [mem_tagsIn, mem_shiftCells, mem_tagsIn, mem_cells_shift]
  rfl

theorem card_layer_shift (T : Finset Cell) (w : Cell) (a : Axis) (i : ℤ) :
    (layer (shiftCells T w) a (i + a.coord w)).card = (layer T a i).card := by
  have hmap : layer (shiftCells T w) a (i + a.coord w) = shiftCells (layer T a i) w := by
    ext c
    rw [mem_layer, mem_shiftCells, mem_shiftCells, mem_layer, coord_sub, sub_eq_iff_eq_add]
  rw [hmap, shiftCells, Finset.card_map]

theorem Tight.shift (ht : Tight T B) (w : Cell) : Tight (shiftCells T w) (B.shift w) := by
  have hmem : ∀ {c}, c ∈ T → c + w ∈ shiftCells T w := fun hc => mem_shiftCells.mpr (by rwa [add_sub_cancel_right])
  refine ⟨fun c hc => mem_cells_shift.mpr (ht.subset (mem_shiftCells.mp hc)), fun a => ?_, fun a => ?_⟩
  · obtain ⟨c, hc, he⟩ := ht.lower a
    exact ⟨c + w, hmem hc, by rw [coord_add, he, Box.shift, coord_add]⟩
  · obtain ⟨c, hc, he⟩ := ht.upper a
    exact ⟨c + w, hmem hc, by rw [coord_add, he, Box.shift, coord_add]⟩

/-! ## Histograms and cuts -/

/-- `h'` counts what `h` counts, moved by `w`. -/
def ShiftedBy (w : Cell) (h h' : HistogramBox) : Prop :=
  ∀ (a : Axis) (i : ℤ), h'.getTags a (i + a.coord w) = h.getTags a i

theorem Counts.shiftedBy (hT : Counts h T) (hT' : Counts h' (shiftCells T w)) : ShiftedBy w h h' := by
  intro a i
  rw [hT, hT', card_layer_shift]

theorem midPoint_add {lo hi k : ℤ} (h1 : ¬ RoundedUp lo hi) (h2 : ¬ RoundedUp (lo + k) (hi + k)) :
    midPoint (lo + k) (hi + k) = midPoint lo hi + k := by
  rw [midPoint_eq, midPoint_eq, if_neg h1, if_neg h2]
  omega

theorem findZeroCutPoint_shift (hh : ShiftedBy w h h') {lo hi : ℤ}
    (hm : midPoint (lo + a.coord w) (hi + a.coord w) = midPoint lo hi + a.coord w) :
    findZeroCutPoint a (lo + a.coord w) (hi + a.coord w) h' 1 =
      (findZeroCutPoint a lo hi h 1).map (· + a.coord w) := by
  have hget : ∀ i j, j = i + a.coord w → h'.getTags a j = h.getTags a i := fun i j hj => hj ▸ hh a i
  simp only [findZeroCutPoint, hm]
  rw [List.map_findSome?]
  have hbound : min (midPoint lo hi + a.coord w - (lo + a.coord w + 1 - 1))
      (hi + a.coord w - 1 - (midPoint lo hi + a.coord w)) + 1 =
      min (midPoint lo hi - (lo + 1 - 1)) (hi - 1 - midPoint lo hi) + 1 := by omega
  rw [hbound]
  congr 1
  funext ic
  rw [Function.comp_apply, hget (midPoint lo hi - ic) _ (by ring), hget (midPoint lo hi + ic) _ (by ring)]
  split_ifs <;> simp only [Option.map_some, Option.map_none, Option.some.injEq] <;> ring

theorem laplacian_shift (hh : ShiftedBy w h h') (ic : ℤ) : laplacian h' a (ic + a.coord w) = laplacian h a ic := by
  have hget : ∀ i j, j = i + a.coord w → h'.getTags a j = h.getTags a i := fun i j hj => hj ▸ hh a i
  rw [laplacian, laplacian, hget (ic - 1) _ (by ring), hget ic _ rfl, hget (ic + 1) _ (by ring)]

def Inflection.shift (s : Inflection) (k : ℤ) : Inflection := { s with locZero := s.locZero + k }

theorem Inflection.next_shift (hh : ShiftedBy w h h') (s : Inflection) (ic : ℤ) :
    (s.shift (a.coord w)).next h' a (ic + a.coord w) = (s.next h a ic).shift (a.coord w) := by
  simp only [Inflection.next, Inflection.shift, laplacian_shift hh]
  split_ifs
  · simp only [Inflection.mk.injEq, true_and, and_true]
    ring
  · rfl

theorem foldl_next_shift (hh : ShiftedBy w h h') (l : List ℤ) (s : Inflection) :
    (l.map (· + a.coord w)).foldl (Inflection.next h' a) (s.shift (a.coord w)) =
      (l.foldl (Inflection.next h a) s).shift (a.coord w) := by
  induction l generalizing s with
  | nil => rfl
  | cons ic l ih => rw [List.map_cons, List.foldl_cons, List.foldl_cons, Inflection.next_shift hh, ih]

theorem cutAtLaplacian_shift (hh : ShiftedBy w h h') {lo hi : ℤ}
    (hm : midPoint (lo + a.coord w) (hi + a.coord w) = midPoint lo hi + a.coord w) :
    cutAtLaplacian a (lo + a.coord w) (hi + a.coord w) h' 1 = cutAtLaplacian a lo hi h 1 + a.coord w := by
  have h1 : max (lo + a.coord w + 1 - 1) (lo + a.coord w + 1) = max (lo + 1 - 1) (lo + 1) + a.coord w := by omega
  have h2 : min (hi + a.coord w - 1) (hi + a.coord w - 2) = min (hi - 1) (hi - 2) + a.coord w := by omega
  have h3 : hi + a.coord w - (lo + a.coord w) + 1 = hi - lo + 1 := by ring
  simp only [cutAtLaplacian, h1, h2, h3, hm]
  split_ifs
  · rw [laplacian_shift hh, add_right_comm _ (a.coord w) 1, add_right_comm _ (a.coord w) 2, upto_add]
    exact congrArg Inflection.locZero (foldl_next_shift hh _ ⟨_, _, 0⟩)
  · rfl

/-- A midpoint that decides where `B` is cut is rounded up. The search for an empty layer in two
layers finds none in any case. -/
def Misplaced (B : Box) : Prop :=
  ∃ a : Axis, RoundedUp (a.coord B.lo) (a.coord B.up) ∧ (3 ≤ B.numberCells a ∨ a = firstLongest B)

theorem Stuck.misplaced (hs : Stuck B) : Misplaced B := by
  obtain ⟨h2, hneg⟩ := hs
  refine ⟨firstLongest B, ?_, Or.inr rfl⟩
  simp only [Box.numberCells] at h2
  simp only [RoundedUp]
  omega

theorem firstLongest_shift (B : Box) (w : Cell) : firstLongest (B.shift w) = firstLongest B := by
  rw [firstLongest, numberCells_shift, firstLongest]

theorem splittable_shift (B : Box) (w : Cell) : splittable (B.shift w) = splittable B := by
  rw [splittable, numberCells_shift, splittable]

theorem findSome?_congr_mem {α β : Type*} {l : List α} {f g : α → Option β} (hfg : ∀ a ∈ l, f a = g a) :
    l.findSome? f = l.findSome? g := by
  induction l with
  | nil => rfl
  | cons a l ih =>
    rw [List.findSome?_cons, List.findSome?_cons, hfg a List.mem_cons_self,
      ih fun b hb => hfg b (List.mem_cons_of_mem _ hb)]

theorem cutOf_shift (hh : ShiftedBy w h h') (hT : Counts h T) (ht : Tight T B) (hm : ¬ Misplaced B)
    (hm' : ¬ Misplaced (B.shift w)) :
    cutOf (B.shift w) h' = ((cutOf B h).1, (cutOf B h).2 + (cutOf B h).1.coord w) := by
  have hmid : ∀ a, 3 ≤ B.numberCells a ∨ a = firstLongest B →
      midPoint (a.coord B.lo + a.coord w) (a.coord B.up + a.coord w) =
        midPoint (a.coord B.lo) (a.coord B.up) + a.coord w := by
    intro a ha
    refine midPoint_add (fun hr => hm ⟨a, hr, ha⟩) fun hr => hm' ⟨a, ?_, ?_⟩
    · simpa only [Box.shift, coord_add] using hr
    · rwa [numberCells_shift, firstLongest_shift]
  have hzero : ∀ a ∈ splittable B, findZeroCutPoint a (a.coord (B.lo + w)) (a.coord (B.up + w)) h' 1 =
      (findZeroCutPoint a (a.coord B.lo) (a.coord B.up) h 1).map (· + a.coord w) := by
    intro a ha
    have h2 := two_le_of_mem_splittable ha
    rw [coord_add, coord_add]
    by_cases h3 : 3 ≤ B.numberCells a
    · exact findZeroCutPoint_shift hh (hmid a (Or.inl h3))
    · have hup : a.coord B.up = a.coord B.lo + 1 := by
        simp only [Box.numberCells] at h2 h3
        omega
      have hlo : h.getTags a (a.coord B.lo) ≠ 0 := hT.ne_zero_iff.mpr (ht.lower a)
      rw [findZeroCutPoint_two hup hlo, findZeroCutPoint_two (by omega) (by rwa [hh])]
      rfl
  have hfind : ((splittable B).findSome? fun a =>
      (findZeroCutPoint a (a.coord (B.lo + w)) (a.coord (B.up + w)) h' 1).map fun cut => (a, cut)) =
      ((splittable B).findSome? fun a =>
        (findZeroCutPoint a (a.coord B.lo) (a.coord B.up) h 1).map fun cut => (a, cut)).map
        fun p => (p.1, p.2 + p.1.coord w) := by
    rw [List.map_findSome?]
    refine findSome?_congr_mem fun a ha => ?_
    rw [hzero a ha, Function.comp_apply, Option.map_map, Option.map_map]
    rfl
  rw [cutOf, cutOf, splittable_shift, firstLongest_shift]
  simp only [Box.shift] at hfind ⊢
  rw [hfind]
  cases (splittable B).findSome? fun a =>
      (findZeroCutPoint a (a.coord B.lo) (a.coord B.up) h 1).map fun cut => (a, cut) with
  | some p => rfl
  | none =>
    simp only [Option.map_none, Option.getD_none, coord_add]
    rw [cutAtLaplacian_shift hh (hmid _ (Or.inr rfl))]

/-! ## Runs -/

section Runs

variable (hB : B.Within v.boundingBox)

include hB

theorem Box.Within.shift_boundingBox (w : Cell) : (B.shift w).Within (v.shift w).boundingBox := by
  rw [boundingBox_shift]
  exact hB.shift w

theorem boundOf_shift (hne : (tagsIn v tag B).Nonempty) :
    boundOf (v.shift w) tag (B.shift w) = (boundOf v tag B).shift w := by
  have hne' : (tagsIn (v.shift w) tag (B.shift w)).Nonempty := by
    rw [tagsIn_shift]
    exact hne.map
  have ht' := boundOf_tight (hB.shift_boundingBox w) hne'
  rw [tagsIn_shift] at ht'
  exact ht'.unique ((boundOf_tight hB hne).shift w)

theorem splits_shift : Splits (v.shift w) tag (B.shift w) ↔ Splits v tag B := by
  rw [Splits, Splits, tagsIn_shift, shiftCells, Finset.map_nonempty, Finset.card_map]
  refine and_congr_right fun hne => ?_
  rw [boundOf_shift hB hne, size_shift]

theorem halves_shift (hs : Splits v tag B) (hm : ¬ Misplaced (boundOf v tag B))
    (hm' : ¬ Misplaced (boundOf (v.shift w) tag (B.shift w))) :
    halves (v.shift w) tag (B.shift w) = ((halves v tag B).1.shift w, (halves v tag B).2.shift w) := by
  rw [boundOf_shift hB hs.1] at hm'
  have hT := computeTagHistogram_counts tag hB
  have hT' := computeTagHistogram_counts tag (hB.shift_boundingBox w)
  rw [tagsIn_shift] at hT'
  have hcut : cutIn (v.shift w) tag (B.shift w) =
      ((cutIn v tag B).1, (cutIn v tag B).2 + (cutIn v tag B).1.coord w) := by
    rw [cutIn, boundOf_shift hB hs.1]
    exact cutOf_shift (hT.shiftedBy hT') hT (boundOf_tight hB hs.1) hm hm'
  obtain ⟨h1, h2⟩ := shift_cut (B := boundOf v tag B) (a := (cutIn v tag B).1) (w := w) (cutIn v tag B).2
  rw [halves, halves, hcut, boundOf_shift hB hs.1, h1, h2]

end Runs

theorem joinHalves_shift (lft rgt : BoxList) :
    joinHalves (B.shift w) [] (lft.map (Box.shift · w)) (rgt.map (Box.shift · w)) =
      (joinHalves B [] lft rgt).map (List.map (Box.shift · w)) := by
  simp only [joinHalves, List.length_map, List.nil_append]
  split_ifs
  · rw [← List.map_append]
    rfl
  · cases lft with
    | nil => rfl
    | cons b l =>
      cases rgt with
      | nil => rfl
      | cons b' l' =>
        simp only [List.map_cons, boxListFront, bind, Except.bind, size_shift]
        split_ifs
        · simp only [Except.map, List.map_append, List.map_cons]
        · rfl

/-- Without rounded midpoints every run on the moved tags does what the run on the tags does. -/
theorem findBoxes_shift (hB : B.Within v.boundingBox) (hm : Avoids v tag B Misplaced)
    (hm' : Avoids (v.shift w) tag (B.shift w) Misplaced) (n : ℕ) :
    findBoxesContainingTags (v.shift w) (1, 1, 1) tag n [] (B.shift w) =
      (findBoxesContainingTags v (1, 1, 1) tag n [] B).map (List.map (Box.shift · w)) := by
  induction n generalizing B with
  | zero => rfl
  | succ n ih =>
    have hempty : tagsIn (v.shift w) tag (B.shift w) = ∅ ↔ tagsIn v tag B = ∅ := by
      rw [tagsIn_shift, shiftCells, Finset.map_eq_empty]
    rw [findBoxesContainingTags, findBoxesContainingTags, coverTags_eq _ hB,
      coverTags_eq _ (hB.shift_boundingBox w)]
    simp only [hempty, splits_shift hB]
    by_cases h0 : tagsIn v tag B = ∅
    · rw [if_pos h0, if_pos h0]
      rfl
    rw [if_neg h0, if_neg h0, boundOf_shift hB (Finset.nonempty_iff_ne_empty.mpr h0)]
    by_cases hs : Splits v tag B
    · have hs' := (splits_shift (w := w) hB).mpr hs
      have hmB := hm B ReflTransGen.refl hs
      have hhalves := halves_shift hB hs hmB (hm' _ ReflTransGen.refl hs')
      have hw := halves_within hB hs (mt Stuck.misplaced hmB)
      have hcalls₁ : Calls (v.shift w) tag (B.shift w) ((halves v tag B).1.shift w) :=
        ⟨hs', Or.inl (by rw [hhalves])⟩
      have hcalls₂ : Calls (v.shift w) tag (B.shift w) ((halves v tag B).2.shift w) :=
        ⟨hs', Or.inr (by rw [hhalves])⟩
      rw [if_pos hs, if_pos hs, hhalves,
        ih (hw.1.trans hB) (hm.calls ⟨hs, Or.inl rfl⟩) (hm'.calls hcalls₁),
        ih (hw.2.trans hB) (hm.calls ⟨hs, Or.inr rfl⟩) (hm'.calls hcalls₂)]
      cases findBoxesContainingTags v (1, 1, 1) tag n [] (halves v tag B).1 with
      | error e => rfl
      | ok lft =>
        cases findBoxesContainingTags v (1, 1, 1) tag n [] (halves v tag B).2 with
        | error e => rfl
        | ok rgt =>
          simp only [Except.map, bind, Except.bind, joinHalves_shift]
          cases joinHalves (boundOf v tag B) [] lft rgt with
          | error e => rfl
          | ok boxes => cases boxes <;> rfl
    · rw [if_neg hs, if_neg hs]
      rfl

/-! ## Equivariance -/

/-- The clustering ends for the tags of `B` and for the moved tags, with the same boxes moved. -/
def Equivariant (v : Indicator) (tag : BitVec 32) (B : Box) (w : Cell) : Prop :=
  ∃ boxes, Returns (fun fuel => findBoxesContainingTags v (1, 1, 1) tag fuel [] B) boxes ∧
    Returns (fun fuel => findBoxesContainingTags (v.shift w) (1, 1, 1) tag fuel [] (B.shift w))
      (boxes.map (Box.shift · w))

theorem equivariant_of_avoids (hB : B.Within v.boundingBox) (hm : Avoids v tag B Misplaced)
    (hm' : Avoids (v.shift w) tag (B.shift w) Misplaced) : Equivariant v tag B w := by
  obtain ⟨boxes, ⟨N, hN⟩, -⟩ := findBoxes_returns hB fun B' hr hs => mt Stuck.misplaced (hm B' hr hs)
  exact ⟨boxes, ⟨N, hN⟩, N, fun fuel hf =>
    (findBoxes_shift hB hm hm' fuel).trans (congrArg (Except.map (List.map (Box.shift · w))) (hN fuel hf))⟩

theorem avoids_misplaced_of_nonneg (hB : B.Within v.boundingBox)
    (hpos : ∀ c ∈ tagsIn v tag B, ∀ a : Axis, 0 ≤ a.coord c) : Avoids v tag B Misplaced := by
  refine avoids_of_tags (fun _ => Stuck.misplaced) hB fun B' hB' hsub hs => ?_
  rintro ⟨a, ⟨hneg, -⟩, -⟩
  obtain ⟨c, hc, hlo⟩ := (boundOf_tight hB' hs.1).lower a
  obtain ⟨d, hd, hup⟩ := (boundOf_tight hB' hs.1).upper a
  have := hpos c (hsub hc) a
  have := hpos d (hsub hd) a
  omega

/-- An L of three cells at the origin. -/
def angle : Indicator := tagCells (newSubgrid 0 0 0 2 2 1 0 0 0 0) [(0, 0, 0), (1, 0, 0), (0, 1, 0)]

def angleBox : Box := ⟨(0, 0, 0), (1, 1, 0)⟩

theorem angleBox_within : angleBox.Within angle.boundingBox := by
  simp only [Box.Within, Axis.forall]
  decide

/-- Moved to the left by one cell the L is a stuck box. -/
theorem angle_shift_stuck : Splits (angle.shift (-1, 0, 0)) 1 (angleBox.shift (-1, 0, 0)) ∧
    Stuck (boundOf (angle.shift (-1, 0, 0)) 1 (angleBox.shift (-1, 0, 0))) := by
  decide +kernel

theorem not_equivariant_angle : ¬ Equivariant angle 1 angleBox (-1, 0, 0) := by
  rintro ⟨boxes, -, N, hN⟩
  exact findBoxes_stuck (angleBox_within.shift_boundingBox _) angle_shift_stuck.1 angle_shift_stuck.2 N _ (hN N le_rfl)

end ParFlow.Clustering
