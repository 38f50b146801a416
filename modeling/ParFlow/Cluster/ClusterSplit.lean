import Mathlib.Algebra.BigOperators.Group.Finset.Basic
import Mathlib.Data.List.TakeWhile
import ParFlow.Grid.SubgridCells
import ParFlow.Cluster.ClusterDefs

/-! Boxes and histograms as sets of cells: a histogram counts the tagged cells of each
layer, and the box computed from it is the smallest one around the tags. -/

namespace ParFlow.Clustering

open IntLoop

variable {a b : Axis} {c : Cell} {i : ℤ} {B B' : Box}

@[simp] theorem coord_mk (f : Axis → ℤ) (a : Axis) : a.coord (Point.mk f) = f a := by cases a <;> rfl

theorem coord_set (p : Point) (a b : Axis) (i : ℤ) :
    b.coord (Point.set p a i) = if b = a then i else b.coord p := by
  rw [Point.set, coord_mk]

theorem cell_ext {c d : Cell} (h : ∀ a : Axis, a.coord c = a.coord d) : c = d :=
  Prod.ext (h .x) (Prod.ext (h .y) (h .z))

namespace Box

theorem contains_axis : B.Contains c ↔ ∀ a : Axis, a.coord B.lo ≤ a.coord c ∧ a.coord c ≤ a.coord B.up := by
  rw [Axis.forall]
  rfl

theorem mem_loop : c ∈ B.loop ↔ B.Contains c := by
  simp only [loop, mem_nest, mem_upto, Contains]
  omega

theorem mem_cells : c ∈ B.cells ↔ ∀ a : Axis, a.coord B.lo ≤ a.coord c ∧ a.coord c ≤ a.coord B.up := by
  rw [cells, List.mem_toFinset, mem_loop, contains_axis]

theorem loop_nodup (B : Box) : B.loop.Nodup := nest_nodup (upto_nodup _ _) (upto_nodup _ _) (upto_nodup _ _)

def NonEmpty (B : Box) : Prop := ∀ a : Axis, a.coord B.lo ≤ a.coord B.up

theorem NonEmpty.one_le (h : B.NonEmpty) (a : Axis) : 1 ≤ B.numberCells a := by
  have := h a
  unfold numberCells
  omega

theorem card_cells (h : B.NonEmpty) : (B.cells.card : ℤ) = B.size := by
  have hx := h.one_le .x
  have hy := h.one_le .y
  have hz := h.one_le .z
  rw [cells, List.toFinset_card_of_nodup B.loop_nodup, loop, length_nest, length_upto, length_upto,
    length_upto]
  simp only [numberCells, Axis.coord] at hx hy hz
  push_cast
  rw [Int.toNat_of_nonneg (by omega), Int.toNat_of_nonneg (by omega), Int.toNat_of_nonneg (by omega)]
  simp only [size, numberCells, Axis.coord]
  ring

theorem ext_of_axis (hlo : ∀ a : Axis, a.coord B.lo = a.coord B'.lo)
    (hup : ∀ a : Axis, a.coord B.up = a.coord B'.up) : B = B' := by
  obtain ⟨lo, up⟩ := B
  obtain ⟨lo', up'⟩ := B'
  exact congr (congrArg Box.mk (cell_ext hlo)) (cell_ext hup)

/-- `B` lies in `B'`. -/
def Within (B B' : Box) : Prop :=
  ∀ a : Axis, a.coord B'.lo ≤ a.coord B.lo ∧ a.coord B.up ≤ a.coord B'.up

theorem Within.trans {B'' : Box} (h : B.Within B') (h' : B'.Within B'') : B.Within B'' :=
  fun a => ⟨(h' a).1.trans (h a).1, (h a).2.trans (h' a).2⟩

theorem Within.cells_subset (h : B.Within B') : B.cells ⊆ B'.cells := fun _ hc =>
  mem_cells.mpr fun a => ⟨(h a).1.trans (mem_cells.mp hc a).1, (mem_cells.mp hc a).2.trans (h a).2⟩

end Box

/-! ## Histograms -/

/-- The tagged cells of a box. -/
def tagsIn (v : Indicator) (tag : BitVec 32) (B : Box) : Finset Cell := B.cells.filter (v.Tagged tag)

variable {v : Indicator} {tag : BitVec 32} {T : Finset Cell}

theorem mem_tagsIn : c ∈ tagsIn v tag B ↔ c ∈ B.cells ∧ v.Tagged tag c := Finset.mem_filter

theorem tagsIn_mono (h : B.Within B') : tagsIn v tag B ⊆ tagsIn v tag B' := by
  intro c hc
  obtain ⟨hc, ht⟩ := mem_tagsIn.mp hc
  exact mem_tagsIn.mpr ⟨h.cells_subset hc, ht⟩

/-- The cells of a set with one index along a dimension. -/
def layer (T : Finset Cell) (a : Axis) (i : ℤ) : Finset Cell := T.filter fun c => a.coord c = i

theorem mem_layer : c ∈ layer T a i ↔ c ∈ T ∧ a.coord c = i := Finset.mem_filter

/-- The loop over a layer of a box inside the vector meets each of its cells. -/
theorem reduceTags_eq (hB : B.Within v.boundingBox) (hi : a.coord B.lo ≤ i ∧ i ≤ a.coord B.up) :
    reduceTags v tag B a i = (layer (tagsIn v tag B) a i).card := by
  have hsrc : ∀ c, (⟨Point.set B.lo a i, Point.set B.up a i⟩ : Box).Contains c ↔ c ∈ B.cells ∧ a.coord c = i := by
    intro c
    simp only [Box.contains_axis, Box.mem_cells, coord_set]
    constructor
    · intro h
      have ha := h a
      simp only [if_true] at ha
      refine ⟨fun b => ?_, by omega⟩
      rcases eq_or_ne b a with rfl | hb
      · omega
      · simpa only [if_neg hb] using h b
    · rintro ⟨h, rfl⟩ b
      split_ifs with hb
      · rw [hb]
        exact ⟨le_rfl, le_rfl⟩
      · exact h b
  rw [reduceTags, List.countP_eq_length_filter, ← List.toFinset_card_of_nodup
    ((nest_nodup (upto_nodup _ _) (upto_nodup _ _) (upto_nodup _ _)).filter _), List.toFinset_filter]
  congr 2
  ext c
  simp only [Finset.mem_filter, List.mem_toFinset, decide_eq_true_eq, mem_layer, mem_tagsIn, hsrc]
  refine ⟨fun ⟨_, ht, hc, hi⟩ => ⟨⟨hc, ht⟩, hi⟩, fun ⟨⟨hc, ht⟩, hci⟩ => ⟨?_, ht, hc, hci⟩⟩
  have hin : ∀ b : Axis, max (v.subgrid.lo b - numGhost) (b.coord (Point.set B.lo a i)) ≤ b.coord c ∧
      b.coord c < max (v.subgrid.lo b - numGhost) (b.coord (Point.set B.lo a i)) +
        min (v.subgrid.num b + 2 * numGhost)
          ((⟨Point.set B.lo a i, Point.set B.up a i⟩ : Box).numberCells b) := by
    intro b
    have hb := Box.contains_axis.mp ((hsrc c).mpr ⟨hc, hci⟩) b
    have hw := hB b
    have hba : a.coord B.lo ≤ i ∧ i ≤ a.coord B.up := hi
    simp only [Indicator.boundingBox, coord_mk] at hw
    simp only [Box.numberCells, coord_set] at hb ⊢
    split_ifs at hb ⊢ with h
    · subst h
      omega
    · omega
  simp only [mem_nest, mem_upto]
  exact ⟨hin .x, hin .y, hin .z⟩

/-- What the algorithm knows of the tags: how many there are in each layer. -/
def Counts (h : HistogramBox) (T : Finset Cell) : Prop := ∀ a i, h.getTags a i = (layer T a i).card

theorem computeTagHistogram_counts (tag : BitVec 32) (hB : B.Within v.boundingBox) :
    Counts (computeTagHistogram v tag B) (tagsIn v tag B) := by
  intro a i
  simp only [HistogramBox.getTags, computeTagHistogram]
  split_ifs with hi
  · exact reduceTags_eq hB hi
  · have hempty : layer (tagsIn v tag B) a i = ∅ := by
      refine Finset.eq_empty_of_forall_notMem fun c hc => hi ?_
      obtain ⟨hcT, hci⟩ := mem_layer.mp hc
      rw [← hci]
      exact Box.mem_cells.mp (mem_tagsIn.mp hcT).1 a
    rw [hempty, Finset.card_empty, Nat.cast_zero]

theorem numTags_eq (hB : B.Within v.boundingBox) :
    (computeTagHistogram v tag B).numTags = (tagsIn v tag B).card := by
  have hmaps : Set.MapsTo (Axis.coord .x) (tagsIn v tag B : Set Cell)
      ((upto B.lo.1 (B.up.1 + 1)).toFinset : Set ℤ) := by
    intro c hc
    have hx := Box.mem_cells.mp (mem_tagsIn.mp (Finset.mem_coe.mp hc)).1 .x
    rw [Finset.mem_coe, List.mem_toFinset, mem_upto]
    exact ⟨hx.1, Int.lt_add_one_of_le hx.2⟩
  rw [HistogramBox.numTags, Finset.card_eq_sum_card_fiberwise hmaps, ← List.sum_toFinset _ (upto_nodup _ _)]
  push_cast
  exact Finset.sum_congr rfl fun i _ => computeTagHistogram_counts tag hB .x i

theorem Counts.ne_zero_iff {h : HistogramBox} (hT : Counts h T) : h.getTags a i ≠ 0 ↔ ∃ c ∈ T, a.coord c = i := by
  rw [hT a i, Nat.cast_ne_zero, Finset.card_ne_zero]
  exact ⟨fun ⟨c, hc⟩ => ⟨c, mem_layer.mp hc⟩, fun ⟨c, hc⟩ => ⟨c, mem_layer.mpr hc⟩⟩

/-! ## The smallest box around the tags -/

/-- `B` is the smallest box that contains the cells of `T`. -/
structure Tight (T : Finset Cell) (B : Box) : Prop where
  subset : T ⊆ B.cells
  lower : ∀ a : Axis, ∃ c ∈ T, a.coord c = a.coord B.lo
  upper : ∀ a : Axis, ∃ c ∈ T, a.coord c = a.coord B.up

theorem Tight.nonEmpty (h : Tight T B) : B.NonEmpty := by
  intro a
  obtain ⟨c, hc, -⟩ := h.lower a
  have := Box.mem_cells.mp (h.subset hc) a
  omega

theorem Tight.nonempty (h : Tight T B) : T.Nonempty := by
  obtain ⟨c, hc, -⟩ := h.lower .x
  exact ⟨c, hc⟩

theorem Tight.within (h : Tight T B) (hT : T ⊆ B'.cells) : B.Within B' := by
  intro a
  obtain ⟨c, hc, hlo⟩ := h.lower a
  obtain ⟨d, hd, hup⟩ := h.upper a
  have hc' := Box.mem_cells.mp (hT hc) a
  have hd' := Box.mem_cells.mp (hT hd) a
  omega

theorem Tight.unique (h : Tight T B) (h' : Tight T B') : B = B' := by
  have h1 := h.within h'.subset
  have h2 := h'.within h.subset
  exact Box.ext_of_axis (fun a => le_antisymm (h2 a).1 (h1 a).1) fun a => le_antisymm (h1 a).2 (h2 a).2

/-- The interval found along one dimension ends in layers with tags. -/
theorem boundTagHistogram_spec {h : HistogramBox} (hT : Counts h T) (hne : T.Nonempty) (hbox : T ⊆ h.box.cells) :
    (∃ c ∈ T, a.coord c = (boundTagHistogram h a 1).1) ∧ (∃ c ∈ T, a.coord c = (boundTagHistogram h a 1).2) ∧
      ∀ c ∈ T, (boundTagHistogram h a 1).1 ≤ a.coord c ∧ a.coord c ≤ (boundTagHistogram h a 1).2 := by
  have hin : ∀ c ∈ T, a.coord h.box.lo ≤ a.coord c ∧ a.coord c ≤ a.coord h.box.up :=
    fun c hc => Box.mem_cells.mp (hbox hc) a
  have hhit : ∀ c ∈ T, decide (h.getTags a (a.coord c) ≠ 0) = true :=
    fun c hc => decide_eq_true (hT.ne_zero_iff.mpr ⟨c, hc, rfl⟩)
  obtain ⟨c₀, hc₀⟩ := hne
  have h0 := hin c₀ hc₀
  rw [boundTagHistogram]
  split_ifs with hw
  · obtain ⟨lo, hlo, hplo, hlo1, hlo2, hlo3⟩ := find?_upto (p := fun i => decide (h.getTags a i ≠ 0)) ⟨h0.1, Int.lt_add_one_of_le h0.2⟩ (hhit c₀ hc₀)
    have hfirst : ∀ c ∈ T, lo ≤ a.coord c := fun c hc => by
      by_contra hlt
      exact hlo3 _ (hin c hc).1 (by omega) (hhit c hc)
    obtain ⟨up, hup, hpup, hup1, hup2, hup3⟩ :=
      find?_upto_reverse (p := fun i => decide (h.getTags a i ≠ 0)) ⟨hfirst c₀ hc₀, Int.lt_add_one_of_le h0.2⟩ (hhit c₀ hc₀)
    have hlast : ∀ c ∈ T, a.coord c ≤ up := fun c hc => by
      by_contra hlt
      exact hup3 _ (by omega) (Int.lt_add_one_of_le (hin c hc).2) (hhit c hc)
    have hpad : ¬ (1 - (up - lo + 1) > 0) := by omega
    simp only [hlo, Option.getD_some, hup, padInterval, if_neg hpad]
    exact ⟨hT.ne_zero_iff.mp (by simpa using hplo), hT.ne_zero_iff.mp (by simpa using hpup),
      fun c hc => ⟨hfirst c hc, hlast c hc⟩⟩
  · exact ⟨⟨c₀, hc₀, by simp only; omega⟩, ⟨c₀, hc₀, by simp only; omega⟩, fun c hc => hin c hc⟩

theorem findBoundBoxForTags_tight {h : HistogramBox} (hT : Counts h T) (hne : T.Nonempty)
    (hbox : T ⊆ h.box.cells) : Tight T (findBoundBoxForTags h (1, 1, 1)) := by
  have hone : ∀ a : Axis, a.coord ((1, 1, 1) : Point) = 1 := fun a => by cases a <;> rfl
  refine ⟨fun c hc => Box.mem_cells.mpr fun a => ?_, fun a => ?_, fun a => ?_⟩ <;>
    simp only [findBoundBoxForTags, coord_mk, hone]
  · exact (boundTagHistogram_spec hT hne hbox).2.2 c hc
  · exact (boundTagHistogram_spec hT hne hbox).1
  · exact (boundTagHistogram_spec hT hne hbox).2.1

end ParFlow.Clustering

/-! Where a box that is not full is cut. The cut leaves cells on both sides, except in a
box whose longest side has two cells and starts below zero: there the midpoint is rounded
towards zero onto the upper end. -/

namespace ParFlow.Clustering

open IntLoop

variable {a : Axis} {lo hi i : ℤ} {h : HistogramBox} {T : Finset Cell} {B : Box}

/-! ## Midpoints -/

/-- The sum of the ends is negative and odd. -/
def RoundedUp (lo hi : ℤ) : Prop := lo + hi < 0 ∧ (lo + hi) % 2 = 1

instance (lo hi : ℤ) : Decidable (RoundedUp lo hi) := inferInstanceAs (Decidable (_ ∧ _))

theorem midPoint_eq (lo hi : ℤ) :
    midPoint lo hi = if RoundedUp lo hi then (lo + hi) / 2 + 1 else (lo + hi) / 2 := by
  rw [midPoint, Int.tdiv_eq_ediv]
  simp only [RoundedUp, Int.sign]
  split_ifs <;> omega

theorem midPoint_mem (h : lo < hi) : lo ≤ midPoint lo hi ∧ (midPoint lo hi < hi ∨ hi = lo + 1 ∧ lo < 0) := by
  simp only [midPoint_eq, RoundedUp]
  split_ifs <;> omega

theorem midPoint_two_neg (h : hi = lo + 1) (hlo : lo < 0) : midPoint lo hi = hi := by
  simp only [midPoint_eq, RoundedUp]
  split_ifs <;> omega

/-! ## The search for an empty layer -/

/-- A cut at an empty layer stays below the upper end. -/
theorem findZeroCutPoint_mem {cut : ℤ} (h' : findZeroCutPoint a lo hi h 1 = some cut) : lo ≤ cut ∧ cut < hi := by
  obtain ⟨ic, hic, hcut⟩ := List.exists_of_findSome?_eq_some h'
  rw [mem_upto] at hic
  split_ifs at hcut with h1 h2
  · rw [← Option.some.inj hcut]
    omega
  · rw [← Option.some.inj hcut]
    omega

/-- There is no empty layer between the ends of two layers with tags. -/
theorem findZeroCutPoint_two (hhi : hi = lo + 1) (hlo : h.getTags a lo ≠ 0) :
    findZeroCutPoint a lo hi h 1 = none := by
  rw [findZeroCutPoint, List.findSome?_eq_none_iff]
  intro ic hic
  rw [mem_upto] at hic
  have hm : midPoint lo hi - ic = lo ∧ midPoint lo hi + ic = lo := by omega
  rw [hm.1, hm.2, if_neg hlo, if_neg hlo]

/-! ## The search for an inflection point -/

theorem Inflection.next_locZero (s : Inflection) (ic : ℤ) :
    (s.next h a ic).locZero = s.locZero ∨ (s.next h a ic).locZero = ic - 1 := by
  unfold Inflection.next
  dsimp only
  split_ifs
  · exact Or.inr rfl
  · exact Or.inl rfl

/-- The search ends where it started or just before an index it looked at. -/
theorem foldl_next_locZero (l : List ℤ) (s : Inflection) :
    (l.foldl (Inflection.next h a) s).locZero = s.locZero ∨
      (l.foldl (Inflection.next h a) s).locZero + 1 ∈ l := by
  induction l generalizing s with
  | nil => exact Or.inl rfl
  | cons ic l ih =>
    rw [List.foldl_cons]
    rcases ih (s.next h a ic) with hl | hl
    · rcases s.next_locZero ic with hs | hs
      · exact Or.inl (hl.trans hs)
      · exact Or.inr (by rw [hl, hs]; simp)
    · exact Or.inr (List.mem_cons_of_mem _ hl)

theorem cutAtLaplacian_mem (hw : lo < hi) : lo ≤ cutAtLaplacian a lo hi h 1 ∧
    (cutAtLaplacian a lo hi h 1 < hi ∨ hi = lo + 1 ∧ lo < 0) := by
  have hmid := midPoint_mem hw
  simp only [cutAtLaplacian]
  split_ifs with h3
  · rcases foldl_next_locZero (upto (max (lo + 1 - 1) (lo + 1) + 1) (min (hi - 1) (hi - 2) + 2))
      ⟨laplacian h a (max (lo + 1 - 1) (lo + 1)), midPoint lo hi, 0⟩ with hl | hl
    · rw [hl]
      exact hmid
    · rw [mem_upto] at hl
      omega
  · exact hmid

theorem cutAtLaplacian_two (hhi : hi = lo + 1) : cutAtLaplacian a lo hi h 1 = midPoint lo hi := by
  rw [cutAtLaplacian, if_neg (by omega)]

/-! ## The order of the dimensions -/

/-- The largest dimension, the first one if there are several. -/
def firstLongest (B : Box) : Axis := (sortDims B.numberCells).headD .x

/-- The dimensions that are large enough to be split. -/
def splittable (B : Box) : List Axis := (sortDims B.numberCells).takeWhile fun a => ¬ B.numberCells a < 2

theorem sortDims_eq (n : Axis → ℤ) : ∃ p q r, sortDims n = [p, q, r] ∧ n q ≤ n p ∧ n r ≤ n q ∧
    (∀ a, a = p ∨ a = q ∨ a = r) ∧ (p = .z → n .x < n .z ∧ n .y < n .z) := by
  refine ⟨_, _, _, rfl, ?_⟩
  by_cases hxy : n .x < n .y <;> by_cases hxz : n .x < n .z <;> by_cases hyz : n .y < n .z <;>
    by_cases hyx : n .y < n .x <;> simp only [orderPair, hxy, hxz, hyz, hyx, if_true, if_false] <;>
    exact ⟨by omega, by omega, fun a => by cases a <;> simp, by simp; try omega⟩

theorem numberCells_le_firstLongest (B : Box) (a : Axis) : B.numberCells a ≤ B.numberCells (firstLongest B) := by
  obtain ⟨p, q, r, he, hpq, hqr, hall, -⟩ := sortDims_eq B.numberCells
  rw [firstLongest, he]
  rcases hall a with rfl | rfl | rfl
  · exact le_rfl
  · exact hpq
  · exact hqr.trans hpq

theorem two_le_of_mem_splittable (ha : a ∈ splittable B) : 2 ≤ B.numberCells a := by
  have := List.mem_takeWhile_imp ha
  simp only [not_lt, decide_eq_true_eq] at this
  exact this

theorem splittable_eq (h2 : 2 ≤ B.numberCells (firstLongest B)) : ∃ as, splittable B = firstLongest B :: as := by
  obtain ⟨p, q, r, he, -, -, -, -⟩ := sortDims_eq B.numberCells
  rw [firstLongest, he, List.headD_cons] at h2
  refine ⟨[q, r].takeWhile fun a => ¬ B.numberCells a < 2, ?_⟩
  rw [splittable, firstLongest, he, List.headD_cons, List.takeWhile_cons_of_pos (by simpa only [not_lt, decide_eq_true_eq] using h2)]

/-! ## The cut -/

theorem coord_one (a : Axis) : a.coord ((1, 1, 1) : Point) = 1 := by cases a <;> rfl

/-- The first empty layer in the order of the dimensions, else the Laplacian of the longest. -/
def cutOf (B : Box) (h : HistogramBox) : Axis × ℤ :=
  ((splittable B).findSome? fun a =>
    (findZeroCutPoint a (a.coord B.lo) (a.coord B.up) h 1).map fun cut => (a, cut)).getD
    (firstLongest B, cutAtLaplacian (firstLongest B) ((firstLongest B).coord B.lo)
      ((firstLongest B).coord B.up) h 1)

theorem findSome?_cut (B : Box) (f : Axis → Option ℤ) (as : List Axis) (p : Axis × ℤ) :
    (as.findSome? fun a => (f a).map (B.cut a)).getD (B.cut p.1 p.2) =
      (fun q : Axis × ℤ => B.cut q.1 q.2) ((as.findSome? fun a => (f a).map fun cut => (a, cut)).getD p) := by
  induction as with
  | nil => rfl
  | cons a as ih =>
    rw [List.findSome?_cons, List.findSome?_cons]
    cases f a with
    | none => exact ih
    | some cut => rfl

theorem splitTagBoundBox_eq (h2 : 2 ≤ B.numberCells (firstLongest B)) :
    splitTagBoundBox B h (1, 1, 1) = some (B.cut (cutOf B h).1 (cutOf B h).2) := by
  obtain ⟨as, has⟩ := splittable_eq h2
  have htake : ((sortDims B.numberCells).takeWhile fun a => ¬ B.numberCells a < 2 * 1) = firstLongest B :: as := by
    rw [← has, splittable, mul_one]
  simp only [splitTagBoundBox, coord_one, htake, cutOf, has]
  exact congrArg some (findSome?_cut B _ _ (_, _))

/-- A box whose longest side has two cells and starts below zero. -/
def Stuck (B : Box) : Prop := B.numberCells (firstLongest B) = 2 ∧ (firstLongest B).coord B.lo < 0

instance (B : Box) : Decidable (Stuck B) := inferInstanceAs (Decidable (_ ∧ _))

/-- The cut leaves cells on both sides of a box that is not stuck. -/
theorem cutOf_mem (h2 : 2 ≤ B.numberCells (firstLongest B)) (hs : ¬ Stuck B) :
    (cutOf B h).1.coord B.lo ≤ (cutOf B h).2 ∧ (cutOf B h).2 < (cutOf B h).1.coord B.up := by
  rw [cutOf]
  cases hz : (splittable B).findSome? fun a =>
      (findZeroCutPoint a (a.coord B.lo) (a.coord B.up) h 1).map fun cut => (a, cut) with
  | some p =>
    obtain ⟨a, -, hp⟩ := List.exists_of_findSome?_eq_some hz
    obtain ⟨cut, hcut, rfl⟩ := Option.map_eq_some_iff.mp hp
    exact findZeroCutPoint_mem hcut
  | none =>
    rw [Option.getD_none]
    simp only [Stuck, Box.numberCells] at h2 hs
    have := cutAtLaplacian_mem (a := firstLongest B) (h := h)
      (show (firstLongest B).coord B.lo < (firstLongest B).coord B.up by omega)
    exact ⟨this.1, this.2.resolve_right (by omega)⟩

/-- In a stuck box around tags the cut is the upper end. -/
theorem cutOf_stuck (hT : Counts h T) (ht : Tight T B) (hs : Stuck B) :
    cutOf B h = (firstLongest B, (firstLongest B).coord B.up) := by
  obtain ⟨h2, hneg⟩ := hs
  have hz : ((splittable B).findSome? fun a =>
      (findZeroCutPoint a (a.coord B.lo) (a.coord B.up) h 1).map fun cut => (a, cut)) = none := by
    rw [List.findSome?_eq_none_iff]
    intro a ha
    have hge := two_le_of_mem_splittable ha
    have hle := numberCells_le_firstLongest B a
    simp only [Box.numberCells] at hge hle h2
    rw [findZeroCutPoint_two (by omega) (hT.ne_zero_iff.mpr (ht.lower a)), Option.map_none]
  have hup : (firstLongest B).coord B.up = (firstLongest B).coord B.lo + 1 := by
    simp only [Box.numberCells] at h2
    omega
  rw [cutOf, hz, Option.getD_none, cutAtLaplacian_two hup, midPoint_two_neg hup hneg]

/-- A box around tags that is not full can be split. -/
theorem Tight.two_le (ht : Tight T B) (hlt : (T.card : ℤ) < B.size) : 2 ≤ B.numberCells (firstLongest B) := by
  by_contra hcon
  have hone : ∀ a, B.numberCells a = 1 := fun a => by
    have h1 := ht.nonEmpty.one_le a
    have h2 := numberCells_le_firstLongest B a
    omega
  have hcard := ht.nonempty.card_pos
  rw [Box.size, hone, hone, hone] at hlt
  omega

/-! ## The two halves -/

theorem mem_cut_fst {c : Cell} {cut : ℤ} (hcut : cut ≤ a.coord B.up) :
    c ∈ (B.cut a cut).1.cells ↔ c ∈ B.cells ∧ a.coord c ≤ cut := by
  simp only [Box.mem_cells, Box.cut, coord_set]
  constructor
  · intro h
    have ha := h a
    simp only [if_true] at ha
    refine ⟨fun b => ?_, ha.2⟩
    rcases eq_or_ne b a with rfl | hb
    · exact ⟨ha.1, ha.2.trans hcut⟩
    · simpa only [if_neg hb] using h b
  · rintro ⟨h, hc⟩ b
    split_ifs with hb
    · exact ⟨(h b).1, hb ▸ hc⟩
    · exact h b

theorem mem_cut_snd {c : Cell} {cut : ℤ} (hcut : a.coord B.lo ≤ cut + 1) :
    c ∈ (B.cut a cut).2.cells ↔ c ∈ B.cells ∧ cut < a.coord c := by
  simp only [Box.mem_cells, Box.cut, coord_set]
  constructor
  · intro h
    have ha := h a
    simp only [if_true] at ha
    refine ⟨fun b => ?_, by omega⟩
    rcases eq_or_ne b a with rfl | hb
    · exact ⟨hcut.trans ha.1, ha.2⟩
    · simpa only [if_neg hb] using h b
  · rintro ⟨h, hc⟩ b
    split_ifs with hb
    · exact ⟨by rw [hb]; omega, (h b).2⟩
    · exact h b

theorem cut_fst_up : (B.cut a (a.coord B.up)).1 = B := by
  refine Box.ext_of_axis (fun _ => rfl) fun b => ?_
  simp only [Box.cut, coord_set]
  split_ifs with hb
  · rw [hb]
  · rfl

end ParFlow.Clustering
