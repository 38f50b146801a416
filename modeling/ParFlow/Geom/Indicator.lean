import ParFlow.Geom.IndicatorColumns

/-! The octree of an indicator field. On a single subgrid it is labelled as the field says, unless the fill leaves the octree
above the highest layer, or the indicator is the value of the ghost layer. -/

namespace ParFlow.Geom

open FuelRun IntLoop GrGeomOctree

/-! ## The bounds of the sweeps -/

section Bounds

variable {bg : Background} {a : Axis} {r : ℤ}

theorem realSpaceD_pos (hbg : 0 < bg.spacing a) : 0 < bg.realSpaceD a r := by
  unfold Background.realSpaceD
  positivity

theorem indexSpace_eq (hbg : 0 < bg.spacing a) (y : ℚ) :
    bg.indexSpace a (bg.origin a + y * bg.realSpaceD a r) r = pfround (y - 1 / 2) := by
  have hd := (realSpaceD_pos (r := r) hbg).ne'
  unfold Background.indexSpace Background.realSpace
  congr 1
  field_simp
  push_cast
  ring

theorem pfround_neg_half : pfround (0 - 1 / 2) = -1 := by
  unfold pfround
  rw [if_pos (by norm_num)]
  norm_num

theorem pfround_intCast {n : ℤ} (hn : 0 ≤ n) : pfround n = n := by
  have hcast : (0 : ℚ) ≤ n := by exact_mod_cast hn
  unfold pfround
  rw [if_neg (not_lt.mpr hcast), Int.floor_eq_iff]
  constructor <;> linarith

theorem pfround_half_below {n : ℤ} (hn : 0 < n) : pfround (n - 1 / 2) = n := by
  have hcast : (1 : ℚ) ≤ n := by exact_mod_cast hn
  unfold pfround
  rw [if_neg (by linarith), sub_add_cancel, Int.floor_intCast]

theorem indexSpace_lower (hbg : 0 < bg.spacing a) (hlo : bg.lo a = 0) :
    bg.indexSpace a (max (bg.realSpace a (-2) r) (bg.lower a)) r = -1 := by
  have hd := realSpaceD_pos (r := r) hbg
  have hmax : max (bg.realSpace a (-2) r) (bg.lower a) = bg.origin a + 0 * bg.realSpaceD a r := by
    unfold Background.realSpace Background.lower
    rw [hlo, max_eq_right]
    · push_cast
      ring
    · push_cast
      linarith
  rw [hmax, indexSpace_eq hbg, pfround_neg_half]

/-- The upper end of the octree is no cell of it. -/
theorem indexSpace_upper (hbg : 0 < bg.spacing a) (hlo : bg.lo a = 0) (hr : 0 ≤ r) {n : ℤ} (hn : 0 < n) :
    bg.indexSpace a (min (bg.realSpace a (n + 1) r) ((getOctreeInfo bg).upper a)) r = min (n + 1) (2 ^ (bg.level + r.toNat)) := by
  have hd := realSpaceD_pos (r := r) hbg
  have hupper : (getOctreeInfo bg).upper a = bg.origin a + ((2 ^ (bg.level + r.toNat) : ℤ) : ℚ) * bg.realSpaceD a r := by
    have hpow : (2 : ℚ) ^ r = 2 ^ r.toNat := by
      conv_lhs => rw [← Int.toNat_of_nonneg hr]
      exact zpow_natCast 2 r.toNat
    show bg.origin a + bg.lo a * bg.spacing a + 2 ^ bg.level * bg.spacing a = _
    unfold Background.realSpaceD
    rw [hlo, hpow, pow_add]
    push_cast
    field_simp
    ring
  have hlast : bg.realSpace a (n + 1) r = bg.origin a + (((n + 1 : ℤ) : ℚ) + 1 / 2) * bg.realSpaceD a r := rfl
  rw [hupper, hlast]
  rcases lt_or_ge (n + 1) (2 ^ (bg.level + r.toNat)) with hlt | hge
  · have hle : ((n + 1 : ℤ) : ℚ) + 1 / 2 ≤ ((2 ^ (bg.level + r.toNat) : ℤ) : ℚ) := by
      have : ((n + 1 : ℤ) : ℚ) + 1 ≤ ((2 ^ (bg.level + r.toNat) : ℤ) : ℚ) := by exact_mod_cast hlt
      linarith
    rw [min_eq_left (by gcongr), indexSpace_eq hbg, add_sub_cancel_right, pfround_intCast (by omega), min_eq_left hlt.le]
  · have hle : ((2 ^ (bg.level + r.toNat) : ℤ) : ℚ) ≤ ((n + 1 : ℤ) : ℚ) + 1 / 2 := by
      have : ((2 ^ (bg.level + r.toNat) : ℤ) : ℚ) ≤ ((n + 1 : ℤ) : ℚ) := by exact_mod_cast hge
      linarith
    rw [min_eq_right (by gcongr), indexSpace_eq hbg, pfround_half_below (by positivity), min_eq_right hge]

end Bounds

/-! ## A single subgrid -/

/-- A grid of cells with lower corner 0 in its background, at the same resolution along all axes. -/
structure IndicatorGrid (bg : Background) (subgrid : Subgrid) : Prop where
  spacing : ∀ a, 0 < bg.spacing a
  bgLower : ∀ a, bg.lo a = 0
  lower : ∀ a, subgrid.lo a = 0
  res : ∀ a, subgrid.res a = subgrid.rx
  fine : 0 ≤ subgrid.rx
  nonEmpty : subgrid.NonEmpty
  fits : ∀ a, subgrid.num a ≤ bg.num a * 2 ^ subgrid.rx.toNat

/-- The level of the cells of the subgrid. -/
def cellLevel (bg : Background) (subgrid : Subgrid) : ℕ := bg.level + subgrid.rx.toNat

def HoldsIndicator (subgrid : Subgrid) (values : Cell → ℚ) (indicator : ℤ) (c : Cell) : Prop :=
  c ∈ subgrid.cells ∧ values c = indicator

theorem Background.num_le (bg : Background) (a : Axis) : bg.num a ≤ 2 ^ bg.level := by
  have hclog : ∀ n : ℤ, n ≤ 2 ^ Nat.clog 2 n.toNat := by
    intro n
    have hle : n.toNat ≤ 2 ^ Nat.clog 2 n.toNat := Nat.le_pow_clog one_lt_two _
    calc n ≤ (n.toNat : ℤ) := Int.self_le_toNat n
      _ ≤ 2 ^ Nat.clog 2 n.toNat := by exact_mod_cast hle
  have hlevel : Nat.clog 2 (bg.num a).toNat ≤ bg.level := by
    unfold level
    cases a <;> omega
  exact (hclog _).trans (pow_le_pow_right₀ one_le_two hlevel)

section Grid

variable {bg : Background} {subgrid : Subgrid} {values : Cell → ℚ} {indicator : ℤ}

/-- The sweep over the only subgrid. -/
def gridSweep (bg : Background) (subgrid : Subgrid) (values : Cell → ℚ) (indicator : ℤ) : IndicatorSweep :=
  (readIndicatorField subgrid values).sweep bg (getOctreeInfo bg) indicator

theorem gridSweep_level (hgrid : IndicatorGrid bg subgrid) :
    (gridSweep bg subgrid values indicator).level = cellLevel bg subgrid := by
  have hfine := hgrid.fine
  show ((bg.level : ℤ) + subgrid.rx).toNat = bg.level + subgrid.rx.toNat
  omega

theorem gridSweep_bounds (hgrid : IndicatorGrid bg subgrid) :
    SweepBounds (gridSweep bg subgrid values indicator) subgrid.num := by
  constructor
  · intro a
    have hall : subgrid.lo a - 2 = -2 := by rw [hgrid.lower, zero_sub]
    show bg.indexSpace a (max (bg.realSpace a (subgrid.lo a - 2) (subgrid.res a)) (bg.lower a)) (subgrid.res a) = -1
    rw [hall]
    exact indexSpace_lower (hgrid.spacing a) (hgrid.bgLower a)
  · intro a
    have hlast : subgrid.lo a - 2 + (subgrid.num a + 4 - 1) = subgrid.num a + 1 := by
      rw [hgrid.lower]
      ring
    show bg.indexSpace a (min (bg.realSpace a (subgrid.lo a - 2 + (subgrid.num a + 4 - 1)) (subgrid.res a))
      ((getOctreeInfo bg).upper a)) (subgrid.res a) = _
    rw [hlast, hgrid.res, gridSweep_level hgrid]
    exact indexSpace_upper (hgrid.spacing a) (hgrid.bgLower a) hgrid.fine (Subregion.nonEmpty_axis.mp hgrid.nonEmpty a)
  · intro a
    show subgrid.lo a - 2 = -2
    rw [hgrid.lower, zero_sub]
  · intro a
    rfl
  · intro a
    show (bg.lo a).tdiv _ = 0
    rw [hgrid.bgLower, Int.zero_tdiv]
  · intro a
    rw [gridSweep_level hgrid, cellLevel, pow_add]
    exact (hgrid.fits a).trans (mul_le_mul_of_nonneg_right (bg.num_le a) (by positivity))

/-- What the sweep finds at a cell, with the values that the ghost layer keeps. -/
theorem gridSweep_ind (hgrid : IndicatorGrid bg subgrid) (c : Cell) :
    (gridSweep bg subgrid values indicator).ind (c.1 + 2, c.2.1 + 2, c.2.2 + 2) ↔
      (if c ∈ subgrid.cells then values c else -1) = (indicator : ℚ) := by
  have hcell : (c.1 + 2 + (subgrid.lo .x - 2), c.2.1 + 2 + (subgrid.lo .y - 2), c.2.2 + 2 + (subgrid.lo .z - 2)) = c := by
    rw [hgrid.lower, hgrid.lower, hgrid.lower]
    refine Prod.ext ?_ (Prod.ext ?_ ?_) <;> dsimp only <;> omega
  unfold gridSweep IndicatorField.sweep readIndicatorField
  dsimp only
  rw [hcell, decide_eq_true_iff]

theorem gridSweep_over (hgrid : IndicatorGrid bg subgrid) (hghost : indicator ≠ -1) :
    SweepsOver (gridSweep bg subgrid values indicator) subgrid.num (HoldsIndicator subgrid values indicator) where
  toSweepBounds := gridSweep_bounds hgrid
  ind c := by
    have hne : (-1 : ℚ) ≠ indicator := by
      intro he
      exact hghost (by exact_mod_cast he.symm)
    rw [gridSweep_ind hgrid]
    unfold HoldsIndicator
    split_ifs with hc
    · exact ⟨fun hv => ⟨hc, hv⟩, And.right⟩
    · exact iff_of_false hne fun h => hc h.1
  within c hc a := by
    have hin := Subregion.mem_cells_axis.mp hc.1 a
    rwa [hgrid.lower, zero_add] at hin

theorem octreeFromInd_eq (fuel : ℕ) (bg : Background) (subgrid : Subgrid) (values : Cell → ℚ) (indicator : ℤ) :
    octreeFromInd fuel bg [readIndicatorField subgrid values] indicator (getOctreeInfo bg) =
      ((gridSweep bg subgrid values indicator).addIndicator subgrid.rx fuel newOctree >>= fun octree =>
        octreeSetBranchNodeFlags fuel octree bg.level) := by
  have hone : upto subgrid.rx (subgrid.rx + 1) = [subgrid.rx] := by simp [upto]
  have hmin : minLevel [readIndicatorField subgrid values] = subgrid.rx := rfl
  have hmax : maxLevel [readIndicatorField subgrid values] = subgrid.rx := rfl
  unfold octreeFromInd
  dsimp only
  rw [hmin, hmax, hone]
  simp only [List.foldlM_cons, List.foldlM_nil, bind_pure]
  rw [if_pos (show (readIndicatorField subgrid values).subgrid.rx = subgrid.rx from rfl)]
  rfl

/-- The octree labels the cells of the grid as the field says, and the faces of its boundary. -/
def LabelsIndicator (level : ℕ) (subgrid : Subgrid) (values : Cell → ℚ) (indicator : ℤ) (octree : GrGeomOctree) : Prop :=
  ∀ c ∈ subgrid.cells, ∃ node newLevel, octreeFind octree c level = some (node, newLevel) ∧ node.nodeIsLeaf ∧
    (node.nodeIsFull ∨ node.nodeIsInside ↔ values c = indicator) ∧
    (node.nodeIsEmpty ∨ node.nodeIsOutside ↔ values c ≠ indicator) ∧
    (node.nodeIsInside → ∀ f, node.hasFace f ↔ ¬ HoldsIndicator subgrid values indicator (across f c))

theorem SameLeaves.findNode {t t' : GrGeomOctree} {c : Cell} {l : ℕ} (h : SameLeaves t t')
    (hleaf : (findNode c l t).1.nodeIsLeaf) : findNode c l t' = findNode c l t := by
  induction l generalizing t t' with
  | zero =>
    cases t with
    | branch flags faces children => exact absurd hleaf Bool.false_ne_true
    | leaf flags faces =>
      cases t' with
      | branch flags' faces' children' => exact absurd h id
      | leaf flags' faces' =>
        obtain ⟨rfl, rfl⟩ := h
        rfl
  | succ l ih =>
    cases t with
    | leaf flags faces =>
      cases t' with
      | branch flags' faces' children' => exact absurd h id
      | leaf flags' faces' =>
        obtain ⟨rfl, rfl⟩ := h
        rfl
    | branch flags faces children =>
      cases t' with
      | leaf flags' faces' => exact absurd h id
      | branch flags' faces' children' => exact ih (h.2 _) hleaf

/-- When no cell of the set is empty any more, the labels are those of the field. -/
theorem Filling.labels {t t' : GrGeomOctree} {level : ℕ}
    (h : Filling level (HoldsIndicator subgrid values indicator) t) (hrange : ∀ c ∈ subgrid.cells, ¬ OutOfRange c level)
    (hdone : ∀ c, HoldsIndicator subgrid values indicator c → (foundNode level t c).flags ≠ nodeEmpty)
    (hsame : SameLeaves t t') : LabelsIndicator level subgrid values indicator t' := by
  intro c hc
  have hfound : (findNode c level t').1 = foundNode level t c := congrArg Prod.fst (hsame.findNode (h.leaf c))
  refine ⟨_, _, octreeFind_eq (hrange c hc), ?_⟩
  rw [hfound]
  refine ⟨h.leaf c, ?_⟩
  unfold nodeIsFull nodeIsInside nodeIsEmpty nodeIsOutside
  by_cases hv : values c = indicator
  · have hind : HoldsIndicator subgrid values indicator c := ⟨hc, hv⟩
    have hface := h.face c hind
    rcases h.solid c hind with hl | hl | hl
    · exact absurd hl (hdone c hind)
    · rw [hl]
      exact ⟨iff_of_true (by decide) hv, iff_of_false (by decide) (not_not.mpr hv), fun hin => absurd hin (by decide)⟩
    · rw [hl]
      exact ⟨iff_of_true (by decide) hv, iff_of_false (by decide) (not_not.mpr hv), fun _ => hface hl⟩
  · have hind : ¬ HoldsIndicator subgrid values indicator c := fun hh => hv hh.2
    rcases h.outer c (hrange c hc) hind with hl | hl
    · rw [hl]
      exact ⟨iff_of_false (by decide) hv, iff_of_true (by decide) hv, fun hin => absurd hin (by decide)⟩
    · rw [hl]
      exact ⟨iff_of_false (by decide) hv, iff_of_true (by decide) hv, fun hin => absurd hin (by decide)⟩

/-- The octree is built, and labels the cells. -/
def BuildsIndicator (bg : Background) (subgrid : Subgrid) (values : Cell → ℚ) (indicator : ℤ) : Prop :=
  ∃ octree, Returns (fun fuel => octreeFromInd fuel bg [readIndicatorField subgrid values] indicator (getOctreeInfo bg)) octree ∧
    LabelsIndicator (cellLevel bg subgrid) subgrid values indicator octree

/-- When the ghost layer has the indicator, the fill looks up a cell of its first column. -/
theorem ghost_fill_ne_ok (hgrid : IndicatorGrid bg subgrid) (minL : ℤ) (fuel : ℕ) (t t' : GrGeomOctree) :
    (gridSweep bg subgrid values (-1)).fill minL fuel t ≠ .ok t' := by
  have h : SweepBounds (gridSweep bg subgrid values (-1)) subgrid.num := gridSweep_bounds hgrid
  have hghost : ((-1, -1, -2) : Cell) ∉ subgrid.cells := by
    intro hmem
    have hx := (Subregion.mem_cells_axis.mp hmem .x).1
    rw [hgrid.lower] at hx
    exact absurd hx (by decide)
  have hind : (gridSweep bg subgrid values (-1)).ind (-1 + 2, -1 + 2, -2 + 2) := by
    rw [gridSweep_ind hgrid (-1, -1, -2), if_neg hghost]
    norm_num
  generalize gridSweep bg subgrid values (-1) = s at h hind ⊢
  have hstart : ∀ a, -1 < s.hi a + 1 := by
    intro a
    have hpos : (0 : ℤ) < 2 ^ s.level := by positivity
    have hnum := Subregion.nonEmpty_axis.mp hgrid.nonEmpty a
    rw [h.hi]
    omega
  have hcolumn : ∀ (fuel : ℕ) (t t' : GrGeomOctree), s.fillColumn minL (-1) (-1) fuel (s.lo .z) t ≠ .ok t' := by
    intro fuel t t' hok
    cases fuel with
    | zero => cases hok
    | succ fuel =>
      have hend : (-1 : ℤ) ≤ s.hi .z := by
        have := hstart .z
        omega
      have hfind : octreeFind t (-1, -1, -1) s.level = none := if_pos (Or.inl (Or.inl (by decide)))
      have hcorner : ((-1 - -2, -1 - -2, -1 - -1) : Cell) = (-1 + 2, -1 + 2, -2 + 2) := by decide
      rw [h.lo, IndicatorSweep.fillColumn, if_pos hend, h.all, h.all, h.lo, hcorner, if_pos hind] at hok
      simp only [h.shift, sub_zero, hfind] at hok
      cases hok
  apply ExceptLoop.foldlM_ne_ok (x := -1)
  · intro st st'
    apply ExceptLoop.foldlM_ne_ok (x := -1) (hcolumn fuel)
    rw [mem_upto, h.lo]
    exact ⟨le_rfl, hstart .x⟩
  · rw [mem_upto, h.lo]
    exact ⟨le_rfl, hstart .y⟩

theorem not_builds_of_fill (hfill : ∀ fuel t t', (gridSweep bg subgrid values indicator).fill subgrid.rx fuel t ≠ .ok t') :
    ¬ BuildsIndicator bg subgrid values indicator := by
  rintro ⟨octree, ⟨N, hN⟩, -⟩
  have hok : octreeFromInd N bg [readIndicatorField subgrid values] indicator (getOctreeInfo bg) = .ok octree := hN N le_rfl
  rw [octreeFromInd_eq] at hok
  obtain ⟨t, ht, -⟩ := bind_eq_ok hok
  exact hfill N _ t ht

/-- Above a cell at the top of the octree no node is found. -/
theorem not_builds_at_top (hgrid : IndicatorGrid bg subgrid) (hghost : indicator ≠ -1) {c : Cell}
    (hc : HoldsIndicator subgrid values indicator c) (htop : c.2.2 + 1 = 2 ^ cellLevel bg subgrid) :
    ¬ BuildsIndicator bg subgrid values indicator := by
  apply not_builds_of_fill
  intro fuel t t'
  apply fill_ne_ok (gridSweep_over hgrid hghost) hc
  rwa [gridSweep_level hgrid]

/-- The octree is built right unless the indicator is the value of the ghost layer, or is found in a layer at the top of the
octree. -/
theorem indicator_labels_iff (bg : Background) (subgrid : Subgrid) (values : Cell → ℚ) (indicator : ℤ)
    (hgrid : IndicatorGrid bg subgrid) : BuildsIndicator bg subgrid values indicator ↔
      indicator ≠ -1 ∧ (subgrid.nz < 2 ^ cellLevel bg subgrid ∨
        ∀ c ∈ subgrid.cells, c.2.2 = subgrid.nz - 1 → values c ≠ indicator) := by
  have hlevel : (gridSweep bg subgrid values indicator).level = cellLevel bg subgrid := gridSweep_level hgrid
  constructor
  · intro hbuilds
    have hghost : indicator ≠ -1 := by
      rintro rfl
      exact not_builds_of_fill (ghost_fill_ne_ok hgrid subgrid.rx) hbuilds
    have hover : SweepsOver (gridSweep bg subgrid values indicator) subgrid.num (HoldsIndicator subgrid values indicator) :=
      gridSweep_over hgrid hghost
    refine ⟨hghost, ?_⟩
    by_contra hnot
    push Not at hnot
    obtain ⟨hreach, c, hc, htop, hv⟩ := hnot
    have hfits : subgrid.nz ≤ 2 ^ (gridSweep bg subgrid values indicator).level := hover.fits .z
    rw [hlevel] at hfits
    exact not_builds_at_top hgrid hghost ⟨hc, hv⟩ (by omega) hbuilds
  · rintro ⟨hghost, htop⟩
    have hover : SweepsOver (gridSweep bg subgrid values indicator) subgrid.num (HoldsIndicator subgrid values indicator) :=
      gridSweep_over hgrid hghost
    have hfits : subgrid.nz ≤ 2 ^ (gridSweep bg subgrid values indicator).level := hover.fits .z
    have hbelow : ∀ c, HoldsIndicator subgrid values indicator c →
        c.2.2 + 1 < 2 ^ (gridSweep bg subgrid values indicator).level := by
      intro c hc
      have hz : c.2.2 < subgrid.nz := (hover.within c hc .z).2
      rw [hlevel] at hfits ⊢
      rcases htop with hlt | htop
      · omega
      · have hne : c.2.2 ≠ subgrid.nz - 1 := fun he => htop c hc.1 he hc.2
        omega
    obtain ⟨ms, hmark, hms⟩ := hover.markedBy
    obtain ⟨t₁, hfill, hfilling, hdone⟩ := fill_returns hover hbelow subgrid.rx (hover.filling hmark hms)
    obtain ⟨octree, hflags, hflagged⟩ := setBranchNodeFlags_flagged t₁ bg.level
    refine ⟨octree, ?_, ?_⟩
    · simp only [octreeFromInd_eq]
      exact (returns_bind_iff hfill).mpr hflags
    · rw [← hlevel]
      apply hfilling.labels _ hdone hflagged.same
      intro c hc
      rw [not_outOfRange_iff]
      intro a
      have hin := Subregion.mem_cells_axis.mp hc a
      rw [hgrid.lower, zero_add] at hin
      exact ⟨hin.1, hin.2.trans_le (hover.fits a)⟩

/-- A background of two cells. -/
def twoCells : Background where
  origin _ := 0
  spacing _ := 1
  lo _ := 0
  num a := if a = .x then 2 else 1

/-- Two cells side by side, under a free layer. -/
theorem twoCells_grid : IndicatorGrid twoCells (newSubgrid 0 0 0 2 1 1 0 0 0 0) where
  spacing _ := one_pos
  bgLower _ := rfl
  lower a := by cases a <;> rfl
  res a := by cases a <;> rfl
  fine := le_rfl
  nonEmpty := by decide
  fits a := by cases a <;> decide

/-- The indicator in one of two cells side by side. -/
theorem twoCells_builds : BuildsIndicator twoCells (newSubgrid 0 0 0 2 1 1 0 0 0 0) (fun c => c.1 + 1) 2 :=
  (indicator_labels_iff twoCells (newSubgrid 0 0 0 2 1 1 0 0 0 0) (fun c => c.1 + 1) 2 twoCells_grid).mpr
    ⟨by decide, Or.inl (by decide +kernel)⟩

def oneCell : Background where
  origin _ := 0
  spacing _ := 1
  lo _ := 0
  num _ := 1

theorem oneCell_grid : IndicatorGrid oneCell (newSubgrid 0 0 0 1 1 1 0 0 0 0) where
  spacing _ := one_pos
  bgLower _ := rfl
  lower a := by cases a <;> rfl
  res a := by cases a <;> rfl
  fine := le_rfl
  nonEmpty := by decide
  fits a := by cases a <;> decide

/-- The only cell of a grid fills the octree to its top. -/
theorem oneCell_not_builds : ¬ ∀ bg subgrid values indicator, IndicatorGrid bg subgrid →
    BuildsIndicator bg subgrid values indicator := by
  intro h
  have hbuilds := h oneCell (newSubgrid 0 0 0 1 1 1 0 0 0 0) (fun _ => 1) 1 oneCell_grid
  have hheld : HoldsIndicator (newSubgrid 0 0 0 1 1 1 0 0 0 0) (fun _ => 1) 1 (0, 0, 0) := ⟨by decide, by norm_num⟩
  exact not_builds_at_top oneCell_grid (by decide) hheld (by decide +kernel) hbuilds

end Grid

end ParFlow.Geom
