import Mathlib.Logic.Relation
import ParFlow.Lib.Cover
import ParFlow.Cluster.ClusterSplit

/-! The recursion on boxes. It ends unless it meets a stuck box, and then the boxes it
returns tile the tagged cells. -/

namespace ParFlow.Clustering

open FuelRun Cover Relation

variable {v : Indicator} {tag : BitVec 32} {B B' : Box} {c : Cell}

/-! ## One call -/

section Call

variable (v : Indicator) (tag : BitVec 32) (B : Box)

/-- The box around the tags of `B`. -/
def boundOf : Box := findBoundBoxForTags (computeTagHistogram v tag B) (1, 1, 1)

/-- There are tags in `B`, and they do not fill the box around them. -/
def Splits : Prop := (tagsIn v tag B).Nonempty ∧ ((tagsIn v tag B).card : ℤ) < (boundOf v tag B).size

instance : Decidable (Splits v tag B) := inferInstanceAs (Decidable (_ ∧ _))

/-- The dimension and the place of the cut. -/
def cutIn : Axis × ℤ := cutOf (boundOf v tag B) (computeTagHistogram v tag B)

def halves : Box × Box := (boundOf v tag B).cut (cutIn v tag B).1 (cutIn v tag B).2

/-- The call on `B` makes a call on `B'`. -/
def Calls (B' : Box) : Prop := Splits v tag B ∧ (B' = (halves v tag B).1 ∨ B' = (halves v tag B).2)

/-- No call made on the way from `B` tries to split a bad box. -/
def Avoids (bad : Box → Prop) : Prop :=
  ∀ B', ReflTransGen (Calls v tag) B B' → Splits v tag B' → ¬ bad (boundOf v tag B')

end Call

theorem boundOf_tight (hB : B.Within v.boundingBox) (hne : (tagsIn v tag B).Nonempty) :
    Tight (tagsIn v tag B) (boundOf v tag B) :=
  findBoundBoxForTags_tight (computeTagHistogram_counts tag hB) hne fun _ hc => (mem_tagsIn.mp hc).1

theorem boundOf_within (hB : B.Within v.boundingBox) (hne : (tagsIn v tag B).Nonempty) :
    (boundOf v tag B).Within B :=
  (boundOf_tight hB hne).within fun _ hc => (mem_tagsIn.mp hc).1

/-- The body of a call by cases on the tags. -/
theorem coverTags_eq (recurse : Box → Except Fault BoxList) (hB : B.Within v.boundingBox) :
    coverTags recurse v (1, 1, 1) tag [] B =
      if tagsIn v tag B = ∅ then .ok []
      else if Splits v tag B then do
        let lft ← recurse (halves v tag B).1
        let rgt ← recurse (halves v tag B).2
        let boxes ← joinHalves (boundOf v tag B) [] lft rgt
        .ok (if boxes.isEmpty then boxes ++ [boundOf v tag B] else boxes)
      else .ok [boundOf v tag B] := by
  have hn : (computeTagHistogram v tag B).numTags = (tagsIn v tag B).card := numTags_eq hB
  have hzero : (computeTagHistogram v tag B).numTags = 0 ↔ tagsIn v tag B = ∅ := by
    rw [hn, Nat.cast_eq_zero, Finset.card_eq_zero]
  simp only [coverTags, hzero]
  by_cases h0 : tagsIn v tag B = ∅
  · rw [if_pos h0, if_pos h0]
  rw [if_neg h0, if_neg h0]
  have hne := Finset.nonempty_iff_ne_empty.mpr h0
  have ht := boundOf_tight hB hne
  by_cases hs : Splits v tag B
  · have hsplit : splitTagBoundBox (boundOf v tag B) (computeTagHistogram v tag B) (1, 1, 1) =
        some (halves v tag B) := splitTagBoundBox_eq (ht.two_le hs.2)
    have hlt : (computeTagHistogram v tag B).numTags < (boundOf v tag B).size := hn ▸ hs.2
    simp only [boundOf] at hsplit hlt
    simp only [if_pos hs, if_pos hlt, hsplit]
    rfl
  · have hlt : ¬ (computeTagHistogram v tag B).numTags < (boundOf v tag B).size := fun h => hs ⟨hne, hn ▸ h⟩
    simp only [boundOf] at hlt
    rw [if_neg hs, if_neg hlt]
    rfl

/-- A call with a recursion that returns at least as often returns at least as often. -/
theorem coverTags_mono {rec₁ rec₂ : Box → Except Fault BoxList} {minBox : Point} {boxes r : BoxList}
    (h : ∀ B r, rec₁ B = .ok r → rec₂ B = .ok r) (hr : coverTags rec₁ v minBox tag boxes B = .ok r) :
    coverTags rec₂ v minBox tag boxes B = .ok r := by
  unfold coverTags at hr ⊢
  dsimp only at hr ⊢
  split_ifs at hr ⊢ with h1 h2
  · exact hr
  · cases hsp : splitTagBoundBox (findBoundBoxForTags (computeTagHistogram v tag B) minBox)
      (computeTagHistogram v tag B) minBox with
    | none => simpa only [hsp] using hr
    | some p =>
      simp only [hsp] at hr ⊢
      cases hl : rec₁ p.1 with
      | error e => simp [hl, bind, Except.bind] at hr
      | ok lft =>
        cases hrg : rec₁ p.2 with
        | error e => simp [hl, hrg, bind, Except.bind] at hr
        | ok rgt =>
          rw [hl, hrg] at hr
          rw [h _ _ hl, h _ _ hrg]
          exact hr
  · exact hr

/-- A longer run finds the same boxes. -/
theorem findBoxes_mono {minBox : Point} {n m : ℕ} (hnm : n ≤ m) {boxes r : BoxList}
    (hr : findBoxesContainingTags v minBox tag n boxes B = .ok r) :
    findBoxesContainingTags v minBox tag m boxes B = .ok r := by
  induction n generalizing m boxes B r with
  | zero => simp [findBoxesContainingTags] at hr
  | succ n ih =>
    obtain ⟨m, rfl⟩ : ∃ k, m = k + 1 := ⟨m - 1, by omega⟩
    exact coverTags_mono (fun B r h => ih (Nat.le_of_succ_le_succ hnm) h) hr

/-! ## The halves of a box that is not stuck -/

section Halves

variable (hB : B.Within v.boundingBox) (hs : Splits v tag B)

include hB hs

theorem halves_fst_stuck (hst : Stuck (boundOf v tag B)) : (halves v tag B).1 = boundOf v tag B := by
  have ht := boundOf_tight hB hs.1
  rw [halves, cutIn, cutOf_stuck (computeTagHistogram_counts tag hB) ht hst]
  exact cut_fst_up

variable (hst : ¬ Stuck (boundOf v tag B))

include hst

theorem cutIn_mem : (cutIn v tag B).1.coord (boundOf v tag B).lo ≤ (cutIn v tag B).2 ∧
    (cutIn v tag B).2 < (cutIn v tag B).1.coord (boundOf v tag B).up :=
  cutOf_mem ((boundOf_tight hB hs.1).two_le hs.2) hst

theorem halves_within : (halves v tag B).1.Within B ∧ (halves v tag B).2.Within B := by
  have hw := boundOf_within hB hs.1
  have hcut := cutIn_mem hB hs hst
  constructor
  all_goals
    intro a
    have ha := hw a
    simp only [halves, Box.cut, coord_set]
    split_ifs with h
    · subst h
      omega
    · exact ha

theorem tagsIn_halves : (∀ c, c ∈ tagsIn v tag (halves v tag B).1 ↔
      c ∈ tagsIn v tag B ∧ (cutIn v tag B).1.coord c ≤ (cutIn v tag B).2) ∧
    ∀ c, c ∈ tagsIn v tag (halves v tag B).2 ↔
      c ∈ tagsIn v tag B ∧ (cutIn v tag B).2 < (cutIn v tag B).1.coord c := by
  have ht := boundOf_tight hB hs.1
  have hcut := cutIn_mem hB hs hst
  have hin : ∀ c, c ∈ (boundOf v tag B).cells ∧ v.Tagged tag c ↔ c ∈ tagsIn v tag B := fun c =>
    ⟨fun h => tagsIn_mono (boundOf_within hB hs.1) (mem_tagsIn.mpr h),
      fun h => ⟨ht.subset h, (mem_tagsIn.mp h).2⟩⟩
  constructor
  · intro c
    rw [mem_tagsIn, halves, mem_cut_fst hcut.2.le, and_right_comm, hin]
  · intro c
    rw [mem_tagsIn, halves, mem_cut_snd (by omega), and_right_comm, hin]

/-- Both halves have tags and are smaller. -/
theorem halves_smaller : (tagsIn v tag (halves v tag B).1).Nonempty ∧ (tagsIn v tag (halves v tag B).2).Nonempty ∧
    (halves v tag B).1.cells.card < B.cells.card ∧ (halves v tag B).2.cells.card < B.cells.card := by
  have ht := boundOf_tight hB hs.1
  obtain ⟨hlo, hup⟩ := cutIn_mem hB hs hst
  obtain ⟨hfst, hsnd⟩ := tagsIn_halves hB hs hst
  obtain ⟨hw₁, hw₂⟩ := halves_within hB hs hst
  obtain ⟨c, hc, hcl⟩ := ht.lower (cutIn v tag B).1
  obtain ⟨d, hd, hdu⟩ := ht.upper (cutIn v tag B).1
  refine ⟨⟨c, (hfst c).mpr ⟨hc, by omega⟩⟩, ⟨d, (hsnd d).mpr ⟨hd, by omega⟩⟩, ?_, ?_⟩
  · refine Finset.card_lt_card ⟨hw₁.cells_subset, fun hsub => ?_⟩
    have := (mem_cut_fst hup.le).mp (hsub (mem_tagsIn.mp hd).1)
    omega
  · refine Finset.card_lt_card ⟨hw₂.cells_subset, fun hsub => ?_⟩
    have := (mem_cut_snd (by omega)).mp (hsub (mem_tagsIn.mp hc).1)
    omega

end Halves

/-! ## Runs that end -/

/-- The boxes are not empty and tile the tagged cells of `B`. -/
def Tiles (v : Indicator) (tag : BitVec 32) (B : Box) (boxes : BoxList) : Prop :=
  Exact Box.cells boxes (tagsIn v tag B : Set Cell) ∧ ∀ b ∈ boxes, b.NonEmpty

theorem Tiles.ne_nil {boxes : BoxList} (h : Tiles v tag B boxes) (hne : (tagsIn v tag B).Nonempty) : boxes ≠ [] := by
  obtain ⟨c, hc⟩ := hne
  obtain ⟨b, hb, -⟩ := (h.1.mem_iff c).mpr hc
  exact List.ne_nil_of_mem hb

/-- Two lists of one box each do not fill a box with more cells than tags. -/
theorem joinHalves_eq {B₁ B₂ : Box} {lft rgt : BoxList} (hl : Tiles v tag B₁ lft) (hr : Tiles v tag B₂ rgt)
    (hl0 : lft ≠ []) (hr0 : rgt ≠ [])
    (hlt : (((tagsIn v tag B₁).card + (tagsIn v tag B₂).card : ℕ) : ℤ) < B.size) :
    joinHalves B [] lft rgt = .ok (lft ++ rgt) := by
  rw [joinHalves]
  split_ifs with h
  · rfl
  push Not at h
  match lft, rgt, hl0, hr0, h with
  | [b₁], [b₂], _, _, _ =>
    have h1 := hl.1.card_sum
    have h2 := hr.1.card_sum
    have hs1 := Box.card_cells (hl.2 b₁ List.mem_cons_self)
    have hs2 := Box.card_cells (hr.2 b₂ List.mem_cons_self)
    simp only [List.map_cons, List.map_nil, List.sum_cons, List.sum_nil, add_zero] at h1 h2
    simp only [boxListFront, bind, Except.bind]
    rw [if_pos (by push_cast at hlt; omega)]
    rfl

theorem coverTags_tiles {recurse : Box → Except Fault BoxList} (hB : B.Within v.boundingBox)
    (hst : Splits v tag B → ¬ Stuck (boundOf v tag B))
    (hrec : ∀ B', Calls v tag B B' → ∃ boxes, recurse B' = .ok boxes ∧ Tiles v tag B' boxes) :
    ∃ boxes, coverTags recurse v (1, 1, 1) tag [] B = .ok boxes ∧ Tiles v tag B boxes := by
  rw [coverTags_eq recurse hB]
  split_ifs with h0 hs
  · refine ⟨[], rfl, ?_, by simp⟩
    rw [h0, Finset.coe_empty]
    exact exact_nil _
  · obtain ⟨lft, hl, htl⟩ := hrec _ ⟨hs, Or.inl rfl⟩
    obtain ⟨rgt, hr, htr⟩ := hrec _ ⟨hs, Or.inr rfl⟩
    obtain ⟨hn₁, hn₂, -, -⟩ := halves_smaller hB hs (hst hs)
    obtain ⟨hfst, hsnd⟩ := tagsIn_halves hB hs (hst hs)
    have hdisj : Disjoint (tagsIn v tag (halves v tag B).1) (tagsIn v tag (halves v tag B).2) :=
      Finset.disjoint_left.mpr fun c h1 h2 => absurd ((hfst c).mp h1).2 (not_le.mpr ((hsnd c).mp h2).2)
    have hunion : tagsIn v tag (halves v tag B).1 ∪ tagsIn v tag (halves v tag B).2 = tagsIn v tag B := by
      ext c
      rw [Finset.mem_union, hfst, hsnd, ← and_or_left, and_iff_left (le_or_gt _ _)]
    have hlt : (((tagsIn v tag (halves v tag B).1).card + (tagsIn v tag (halves v tag B).2).card : ℕ) : ℤ) <
        (boundOf v tag B).size := by
      rw [← Finset.card_union_of_disjoint hdisj, hunion]
      exact hs.2
    have hl0 := htl.ne_nil hn₁
    refine ⟨lft ++ rgt, ?_, ?_, fun b hb => ?_⟩
    · have hj := joinHalves_eq htl htr hl0 (htr.ne_nil hn₂) hlt
      simp only [hl, hr, hj, bind, Except.bind]
      rw [if_neg (by simp [hl0])]
    · refine (htl.1.append htr.1 (by exact_mod_cast hdisj)).congr fun c => ?_
      rw [← hunion, Finset.coe_union]
    · rcases List.mem_append.mp hb with hb | hb
      · exact htl.2 b hb
      · exact htr.2 b hb
  · have ht := boundOf_tight hB (Finset.nonempty_iff_ne_empty.mpr h0)
    have hcard : (boundOf v tag B).cells.card ≤ (tagsIn v tag B).card := by
      have := Box.card_cells ht.nonEmpty
      have hle : (boundOf v tag B).size ≤ (tagsIn v tag B).card :=
        not_lt.mp fun h => hs ⟨Finset.nonempty_iff_ne_empty.mpr h0, h⟩
      omega
    refine ⟨[boundOf v tag B], rfl, ?_, fun b hb => List.mem_singleton.mp hb ▸ ht.nonEmpty⟩
    rw [Finset.eq_of_subset_of_card_le ht.subset hcard]
    exact exact_singleton _ _

theorem Avoids.calls {bad : Box → Prop} (h : Avoids v tag B bad) (hc : Calls v tag B B') : Avoids v tag B' bad :=
  fun B'' hB'' => h B'' (ReflTransGen.head hc hB'')

/-- The recursion is no deeper than there are cells in the box. -/
theorem findBoxes_tiles {n : ℕ} (hB : B.Within v.boundingBox) (hst : Avoids v tag B Stuck) (hn : B.cells.card < n) :
    ∃ boxes, findBoxesContainingTags v (1, 1, 1) tag n [] B = .ok boxes ∧ Tiles v tag B boxes := by
  induction n generalizing B with
  | zero => omega
  | succ n ih =>
    have hns := hst B ReflTransGen.refl
    refine coverTags_tiles hB hns fun B' hc => ?_
    obtain ⟨hw₁, hw₂⟩ := halves_within hB hc.1 (hns hc.1)
    obtain ⟨-, -, hc₁, hc₂⟩ := halves_smaller hB hc.1 (hns hc.1)
    have hst' := hst.calls hc
    obtain ⟨-, rfl | rfl⟩ := hc
    · exact ih (hw₁.trans hB) hst' (by omega)
    · exact ih (hw₂.trans hB) hst' (by omega)

/-! ## Runs that do not end -/

/-- A stuck box is its own left half. -/
theorem findBoxes_stuck (hB : B.Within v.boundingBox) (hs : Splits v tag B) (hst : Stuck (boundOf v tag B))
    (n : ℕ) (boxes : BoxList) : findBoxesContainingTags v (1, 1, 1) tag n [] B ≠ .ok boxes := by
  induction n generalizing B boxes with
  | zero => simp [findBoxesContainingTags]
  | succ n ih =>
    have ht := boundOf_tight hB hs.1
    have hw := boundOf_within hB hs.1
    have htags : tagsIn v tag (boundOf v tag B) = tagsIn v tag B := by
      refine (tagsIn_mono hw).antisymm fun c hc => ?_
      exact mem_tagsIn.mpr ⟨ht.subset hc, (mem_tagsIn.mp hc).2⟩
    have hbound : boundOf v tag (boundOf v tag B) = boundOf v tag B := by
      have := boundOf_tight (hw.trans hB) (htags.symm ▸ hs.1)
      exact (htags ▸ this).unique ht
    have hs' : Splits v tag (boundOf v tag B) := by
      rw [Splits, htags, hbound]
      exact hs
    intro h
    rw [findBoxesContainingTags, coverTags_eq _ hB, if_neg hs.1.ne_empty, if_pos hs,
      halves_fst_stuck hB hs hst] at h
    cases hl : findBoxesContainingTags v (1, 1, 1) tag n [] (boundOf v tag B) with
    | error e => simp [hl, bind, Except.bind] at h
    | ok lft => exact ih (hw.trans hB) hs' (hbound.symm ▸ hst) lft hl

/-- A run does not end when a call below it does not. -/
theorem findBoxes_ne_ok (hB : B.Within v.boundingBox) (hr : ReflTransGen (Calls v tag) B B')
    (hs : Splits v tag B') (hst : Stuck (boundOf v tag B')) (n : ℕ) (boxes : BoxList) :
    findBoxesContainingTags v (1, 1, 1) tag n [] B ≠ .ok boxes := by
  induction hr using ReflTransGen.head_induction_on generalizing n boxes with
  | refl => exact findBoxes_stuck hB hs hst n boxes
  | @head B B₁ hc _ ih =>
    by_cases hst' : Stuck (boundOf v tag B)
    · exact findBoxes_stuck hB hc.1 hst' n boxes
    obtain ⟨hw₁, hw₂⟩ := halves_within hB hc.1 hst'
    cases n with
    | zero => simp [findBoxesContainingTags]
    | succ n =>
      intro h
      rw [findBoxesContainingTags, coverTags_eq _ hB, if_neg hc.1.1.ne_empty, if_pos hc.1] at h
      cases hl : findBoxesContainingTags v (1, 1, 1) tag n [] (halves v tag B).1 with
      | error e => simp [hl, bind, Except.bind] at h
      | ok lft =>
        cases hrg : findBoxesContainingTags v (1, 1, 1) tag n [] (halves v tag B).2 with
        | error e => simp [hl, hrg, bind, Except.bind] at h
        | ok rgt =>
          obtain ⟨-, rfl | rfl⟩ := hc
          · exact ih (hw₁.trans hB) n lft hl
          · exact ih (hw₂.trans hB) n rgt hrg

/-! ## Results -/

theorem findBoxes_returns (hB : B.Within v.boundingBox) (hst : Avoids v tag B Stuck) :
    ∃ boxes, Returns (fun fuel => findBoxesContainingTags v (1, 1, 1) tag fuel [] B) boxes ∧
      Tiles v tag B boxes := by
  obtain ⟨boxes, hb, ht⟩ := findBoxes_tiles hB hst (Nat.lt_succ_self _)
  exact ⟨boxes, ⟨_, fun fuel hf => findBoxes_mono hf hb⟩, ht⟩

/-- The clustering of a box ends exactly when it avoids stuck boxes. -/
theorem findBoxes_returns_iff (hB : B.Within v.boundingBox) :
    (∃ boxes, Returns (fun fuel => findBoxesContainingTags v (1, 1, 1) tag fuel [] B) boxes) ↔
      Avoids v tag B Stuck := by
  constructor
  · rintro ⟨boxes, N, hN⟩ B' hr hs hst
    exact findBoxes_ne_ok hB hr hs hst N boxes (hN N le_rfl)
  · intro hst
    obtain ⟨boxes, hb, -⟩ := findBoxes_returns hB hst
    exact ⟨boxes, hb⟩

/-- To avoid bad boxes it is enough that no box around some of the tags is bad. -/
theorem avoids_of_tags {bad : Box → Prop} (hbad : ∀ b, Stuck b → bad b) (hB : B.Within v.boundingBox)
    (h : ∀ B', B'.Within v.boundingBox → tagsIn v tag B' ⊆ tagsIn v tag B → Splits v tag B' →
      ¬ bad (boundOf v tag B')) : Avoids v tag B bad := by
  intro B' hr
  suffices B'.Within v.boundingBox ∧ tagsIn v tag B' ⊆ tagsIn v tag B from h B' this.1 this.2
  induction hr with
  | refl => exact ⟨hB, subset_rfl⟩
  | tail _ hc ih =>
    obtain ⟨hw, hsub⟩ := ih
    have hw' := halves_within hw hc.1 (mt (hbad _) (h _ hw hsub hc.1))
    obtain ⟨-, rfl | rfl⟩ := hc
    · exact ⟨hw'.1.trans hw, (tagsIn_mono hw'.1).trans hsub⟩
    · exact ⟨hw'.2.trans hw, (tagsIn_mono hw'.2).trans hsub⟩

/-- No box around cells with non-negative indices is stuck. -/
theorem avoids_stuck_of_nonneg (hB : B.Within v.boundingBox)
    (hpos : ∀ c ∈ tagsIn v tag B, ∀ a : Axis, 0 ≤ a.coord c) : Avoids v tag B Stuck := by
  refine avoids_of_tags (fun _ h => h) hB fun B' hB' hsub hs hst => ?_
  obtain ⟨c, hc, hlo⟩ := (boundOf_tight hB' hs.1).lower (firstLongest (boundOf v tag B'))
  have := hpos c (hsub hc) (firstLongest (boundOf v tag B'))
  have := hst.2
  omega

theorem Box.Within.refl (B : Box) : B.Within B := fun _ => ⟨le_rfl, le_rfl⟩

/-- On tags with non-negative indices the clustering ends, and its boxes are not empty, pairwise
disjoint, and cover the tagged cells and no others. -/
theorem bergerRigoutsos_tiles (v : Indicator) (tag : BitVec 32)
    (hpos : ∀ c ∈ v.boundingBox.cells, v.Tagged tag c → ∀ a : Axis, 0 ≤ a.coord c) :
    ∃ boxes, Returns (fun fuel => bergerRigoutsos fuel v (1, 1, 1) tag []) boxes ∧
      boxes.Pairwise (fun b b' => Disjoint b.cells b'.cells) ∧ (∀ b ∈ boxes, b.cells.Nonempty) ∧
      ∀ c, (∃ b ∈ boxes, c ∈ b.cells) ↔ c ∈ v.boundingBox.cells ∧ v.Tagged tag c := by
  have hB := Box.Within.refl v.boundingBox
  obtain ⟨boxes, ⟨N, hN⟩, hex, hne⟩ := findBoxes_returns hB
    (avoids_stuck_of_nonneg hB fun c hc => hpos c (mem_tagsIn.mp hc).1 (mem_tagsIn.mp hc).2)
  refine ⟨boxes, ⟨N, fun fuel hf => hN (fuel + 1) (hf.trans (Nat.le_succ _))⟩, hex.1, fun b hb => ?_, fun c => ?_⟩
  · exact ⟨b.lo, Box.mem_cells.mpr fun a => ⟨le_rfl, hne b hb a⟩⟩
  · rw [hex.mem_iff, Finset.mem_coe, mem_tagsIn]

/-- The tags at the given cells. -/
def tagCells (subgrid : Subgrid) (cells : List Cell) : Indicator := ⟨subgrid, fun c => if c ∈ cells then 1 else 0⟩

theorem tagged_tagCells {subgrid : Subgrid} {cells : List Cell} : (tagCells subgrid cells).Tagged 1 c ↔ c ∈ cells := by
  simp only [Indicator.Tagged, tagCells]
  split_ifs with h <;> simp [h]

/-- Three cells in the shape of an L. -/
theorem angle_tiles : ∃ boxes, Returns (fun fuel => bergerRigoutsos fuel
      (tagCells (newSubgrid 0 0 0 2 2 1 0 0 0 0) [(0, 0, 0), (1, 0, 0), (0, 1, 0)]) (1, 1, 1) 1 []) boxes ∧
    (∃ b ∈ boxes, (1, 0, 0) ∈ b.cells) ∧ ¬ ∃ b ∈ boxes, (1, 1, 0) ∈ b.cells := by
  obtain ⟨boxes, hret, -, -, hmem⟩ := bergerRigoutsos_tiles
    (tagCells (newSubgrid 0 0 0 2 2 1 0 0 0 0) [(0, 0, 0), (1, 0, 0), (0, 1, 0)]) 1 fun c _ ht a => by
      rw [tagged_tagCells] at ht
      fin_cases ht <;> cases a <;> decide
  refine ⟨boxes, hret, (hmem _).mpr ⟨?_, tagged_tagCells.mpr (by decide)⟩, fun h => ?_⟩
  · rw [Box.mem_cells, Axis.forall]
    decide
  · exact absurd (tagged_tagCells.mp ((hmem _).mp h).2) (by decide)

end ParFlow.Clustering
