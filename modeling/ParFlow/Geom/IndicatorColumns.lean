import ParFlow.Lib.ExceptLoop
import ParFlow.Geom.OctreeFill

/-! The fill column by column. The index of a layer is that of the layer below in the field, which does no harm between the
marks, but leads out of the octree above a grid that reaches its top. -/

namespace ParFlow.Geom

open FuelRun IntLoop GrGeomOctree

variable {level r : ℕ} {t : GrGeomOctree} {s : IndicatorSweep} {num : Axis → ℤ} {Ind : Cell → Prop}

/-! ## The next index -/

theorem intPow2_levels (hr : r ≤ level) : intPow2 (level - (level - r : ℕ)) = 2 ^ r := by
  have hsub : (level : ℤ) - ((level - r : ℕ) : ℤ) = r := by omega
  unfold intPow2
  rw [hsub, if_pos (by omega), Int.toNat_natCast]

/-- The first index above the node that was found. -/
def nextIndex (level newLevel : ℕ) (k : ℤ) : ℤ := (k.tdiv (intPow2 (level - newLevel)) + 1) * intPow2 (level - newLevel)

theorem nextIndex_spec (hr : r ≤ level) {k : ℤ} (hk : 0 ≤ k ∧ k < 2 ^ level) :
    k < nextIndex level (level - r) k ∧ nextIndex level (level - r) k ≤ 2 ^ level ∧
      ∀ k', k ≤ k' → k' < nextIndex level (level - r) k → k / 2 ^ r = k' / 2 ^ r := by
  have hpos : (0 : ℤ) < 2 ^ r := by positivity
  have hlast := (ediv_lt_of_lt hr hk).2
  unfold nextIndex
  rw [intPow2_levels hr, Int.tdiv_eq_ediv_of_nonneg hk.1]
  refine ⟨Int.lt_ediv_add_one_mul_self k hpos, ?_, fun k' hlo hhi => ?_⟩
  · calc (k / 2 ^ r + 1) * 2 ^ r ≤ 2 ^ (level - r) * 2 ^ r := by
          apply mul_le_mul_of_nonneg_right _ hpos.le
          omega
      _ = 2 ^ level := by rw [← pow_add, Nat.sub_add_cancel hr]
  · symm
    rw [ediv_eq_iff]
    constructor
    · exact (Int.ediv_mul_le k hpos.ne').trans hlo
    · rwa [add_mul, one_mul] at hhi

/-! ## One column -/

theorem SweepsOver.ind_below (h : SweepsOver s num Ind) (i j k : ℤ) :
    s.ind (i - s.all .x, j - s.all .y, k - s.lo .z) ↔ Ind (i, j, k - 1) := by
  have hindex : (i - s.all .x, j - s.all .y, k - s.lo .z) = (i + 2, j + 2, k - 1 + 2) := by
    rw [h.all, h.all, h.lo]
    refine Prod.ext ?_ (Prod.ext ?_ ?_) <;> dsimp only <;> omega
  rw [hindex]
  exact h.ind (i, j, k - 1)

section Column

variable (h : SweepsOver s num Ind) {minL i j k : ℤ}

theorem fillColumn_end (hk : ¬ k ≤ s.hi .z) (n : ℕ) : s.fillColumn minL i j (n + 1) k t = .ok t := by
  rw [IndicatorSweep.fillColumn, if_neg hk]

include h

theorem SweepsOver.fillColumn_skip (hk : k ≤ s.hi .z) (hind : ¬ Ind (i, j, k - 1)) (n : ℕ) :
    s.fillColumn minL i j (n + 1) k t = s.fillColumn minL i j n (k + 1) t := by
  rw [IndicatorSweep.fillColumn, if_pos hk, if_neg (mt (h.ind_below i j k).mp hind)]

theorem SweepsOver.shift_cell (i j k : ℤ) : (i - s.shift .x, j - s.shift .y, k - s.shift .z) = (i, j, k) := by
  rw [h.shift, h.shift, h.shift, sub_zero, sub_zero, sub_zero]

theorem SweepsOver.fillColumn_null (hk : k ≤ s.hi .z) (hind : Ind (i, j, k - 1)) (hc : OutOfRange (i, j, k) s.level) (n : ℕ) :
    s.fillColumn minL i j (n + 1) k t = .error .null := by
  have hfind : octreeFind t (i, j, k) s.level = none := if_pos hc
  rw [IndicatorSweep.fillColumn, if_pos hk, if_pos ((h.ind_below i j k).mpr hind)]
  simp only [h.shift_cell, hfind]

theorem SweepsOver.fillColumn_found (hk : k ≤ s.hi .z) (hind : Ind (i, j, k - 1)) (hc : ¬ OutOfRange (i, j, k) s.level)
    (n : ℕ) : s.fillColumn minL i j (n + 1) k t =
      s.fillColumn minL i j n (nextIndex s.level (s.level - (findNode (i, j, k) s.level t).2) k)
        (modifyFound (s.fillNode minL (s.level - (findNode (i, j, k) s.level t).2)) (i, j, k) s.level t) := by
  rw [IndicatorSweep.fillColumn, if_pos hk, if_pos ((h.ind_below i j k).mpr hind)]
  simp only [h.shift_cell, octreeFind_eq hc]
  rfl

end Column

theorem KeepsCells.trans {t₁ t₂ t₃ : GrGeomOctree} (h : KeepsCells level t₁ t₂) (h' : KeepsCells level t₂ t₃) :
    KeepsCells level t₁ t₃ := fun d hd => h' d (h d hd)

/-- The cells of a column in the set are not empty. -/
def ColumnDone (level : ℕ) (Ind : Cell → Prop) (i j : ℤ) (t : GrGeomOctree) : Prop :=
  ∀ k, Ind (i, j, k) → (foundNode level t (i, j, k)).flags ≠ nodeEmpty

theorem fillColumn_returns (h : SweepsOver s num Ind) (htop : ∀ c, Ind c → c.2.2 + 1 < 2 ^ s.level) (minL i j : ℤ) (k : ℤ)
    (t : GrGeomOctree) (hfill : Filling s.level Ind t)
    (hbefore : ∀ k' < k, Ind (i, j, k') → (foundNode s.level t (i, j, k')).flags ≠ nodeEmpty) :
    ∃ t', Returns (fun fuel => s.fillColumn minL i j fuel k t) t' ∧ Filling s.level Ind t' ∧ KeepsCells s.level t t' ∧
      ColumnDone s.level Ind i j t' := by
  induction hn : (s.hi .z + 1 - k).toNat using Nat.strong_induction_on generalizing k t with
  | _ n ih =>
    by_cases hk : k ≤ s.hi .z
    · by_cases hind : Ind (i, j, k - 1)
      · have hlow : ¬ OutOfRange (lineCell .z i j (k - 1)) s.level := h.inRange hind
        have hrange : 0 ≤ k - 1 ∧ k - 1 + 1 < 2 ^ s.level := ⟨(h.within _ hind .z).1, htop _ hind⟩
        have hup : ¬ OutOfRange (lineCell .z i j k) s.level := inRange_lineCell hlow ⟨by omega, by omega⟩
        have hc : ¬ OutOfRange (i, j, k) s.level := hup
        have hset : (foundNode s.level t (i, j, k)).flags = nodeEmpty → Ind (i, j, k) := by
          intro hempty
          by_contra hout
          have hacross : across .F (i, j, k - 1) = (i, j, k) := by rw [across, sub_add_cancel]
          have hcross := (hfill.crossing (i, j, k - 1) .F hind (by rwa [hacross])).2
          rw [hacross] at hcross
          exact hcross hc hempty
        obtain ⟨hfill', hkeeps, hblock⟩ := hfill.fillStep hc hset minL
        have hr : (findNode (i, j, k) s.level t).2 ≤ s.level := findNode_le _ _ _
        obtain ⟨hlt, -, hsame⟩ := nextIndex_spec hr (⟨by omega, by omega⟩ : 0 ≤ k ∧ k < 2 ^ s.level)
        have hbefore' : ∀ k' < nextIndex s.level (s.level - (findNode (i, j, k) s.level t).2) k, Ind (i, j, k') →
            (foundNode s.level (modifyFound (s.fillNode minL (s.level - (findNode (i, j, k) s.level t).2)) (i, j, k) s.level t)
              (i, j, k')).flags ≠ nodeEmpty := by
          intro k' hk' hind'
          by_cases hpast : k' < k
          · exact hkeeps _ (hbefore k' hpast hind')
          · apply hblock
            rw [sameBlock_iff hr hc (h.inRange hind'), Axis.forall]
            exact ⟨rfl, rfl, hsame k' (not_lt.mp hpast) hk'⟩
        obtain ⟨t', hret, hdone, hkeeps', hcol⟩ := ih _ (by omega) _ _ hfill' hbefore' rfl
        exact ⟨t', returns_of_succ hret fun n => h.fillColumn_found hk hind hc n, hdone, hkeeps.trans hkeeps', hcol⟩
      · have hbefore' : ∀ k' < k + 1, Ind (i, j, k') → (foundNode s.level t (i, j, k')).flags ≠ nodeEmpty := by
          intro k' hk' hind'
          rcases Int.lt_add_one_iff.mp hk' |>.lt_or_eq with hlt | rfl
          · exact hbefore k' hlt hind'
          · exact (hfill.crossing (i, j, k') .B hind' hind).1
        obtain ⟨t', hret, hdone⟩ := ih _ (by omega) _ _ hfill hbefore' rfl
        exact ⟨t', returns_of_succ hret fun n => h.fillColumn_skip hk hind n, hdone⟩
    · refine ⟨t, returns_of_succ (returns_const t) fun n => fillColumn_end hk n, hfill, fun d hd => hd, fun k' hind' => ?_⟩
      have hin := h.within _ hind' .z
      have hfits := h.fits .z
      rw [h.hi] at hk
      exact hbefore k' (by simp only [Axis.coord] at hin; omega) hind'

/-! ## All columns -/

/-- Below the top of the octree the fill comes to its end, and no cell of the set stays empty. -/
theorem fill_returns (h : SweepsOver s num Ind) (htop : ∀ c, Ind c → c.2.2 + 1 < 2 ^ s.level) (minL : ℤ)
    (hfill : Filling s.level Ind t) :
    ∃ t', Returns (fun fuel => s.fill minL fuel t) t' ∧ Filling s.level Ind t' ∧
      ∀ c, Ind c → (foundNode s.level t' c).flags ≠ nodeEmpty := by
  have hlasts : ∀ i j st st', KeepsCells s.level st st' → ColumnDone s.level Ind i j st → ColumnDone s.level Ind i j st' :=
    fun i j st st' hkeeps hdone k hind => hkeeps _ (hdone k hind)
  have hcolumn : ∀ j i st, Filling s.level Ind st → ∃ st', Returns (fun fuel => s.fillColumn minL i j fuel (s.lo .z) st) st' ∧
      Filling s.level Ind st' ∧ KeepsCells s.level st st' ∧ ColumnDone s.level Ind i j st' := by
    intro j i st hst
    apply fillColumn_returns h htop minL i j (s.lo .z) st hst
    intro k' hk' hind
    have hin := h.within _ hind .z
    rw [h.lo] at hk'
    simp only [Axis.coord] at hin
    omega
  have hrow : ∀ j st, Filling s.level Ind st → ∃ st',
      Returns (fun fuel => (upto (s.lo .x) (s.hi .x + 1)).foldlM
        (fun octree i => s.fillColumn minL i j fuel (s.lo .z) octree) st) st' ∧
      Filling s.level Ind st' ∧ KeepsCells s.level st st' ∧
      ∀ i ∈ upto (s.lo .x) (s.hi .x + 1), ColumnDone s.level Ind i j st' := by
    intro j
    exact returns_foldlM_each (Filling s.level Ind) (KeepsCells s.level) (fun i => ColumnDone s.level Ind i j)
      (fun st d hd => hd) (fun _ _ _ => KeepsCells.trans) (fun i => hlasts i j) fun i _ => hcolumn j i
  obtain ⟨t', hret, hfill', -, hdone⟩ := returns_foldlM_each (Filling s.level Ind) (KeepsCells s.level)
    (fun j st => ∀ i ∈ upto (s.lo .x) (s.hi .x + 1), ColumnDone s.level Ind i j st)
    (fun st d hd => hd) (fun _ _ _ => KeepsCells.trans)
    (fun j st st' hkeeps hst i hi => hlasts i j st st' hkeeps (hst i hi)) (l := upto (s.lo .y) (s.hi .y + 1))
    (fun j _ => hrow j) t hfill
  refine ⟨t', hret, hfill', fun c hc => ?_⟩
  have hx := h.within c hc .x
  have hy := h.within c hc .y
  have hfitsx := h.fits .x
  have hfitsy := h.fits .y
  simp only [Axis.coord] at hx hy
  apply hdone c.2.1 _ c.1 _ c.2.2 hc
  · rw [mem_upto, h.lo, h.hi]
    omega
  · rw [mem_upto, h.lo, h.hi]
    omega

/-! ## The end of the octree -/

/-- A column whose highest layer is in the set leads out of the octree. -/
theorem fillColumn_ne_ok (h : SweepsOver s num Ind) {i j : ℤ} (htop : Ind (i, j, 2 ^ s.level - 1)) (minL : ℤ) (fuel : ℕ)
    (k : ℤ) (hk : k ≤ 2 ^ s.level) (t t' : GrGeomOctree) : s.fillColumn minL i j fuel k t ≠ .ok t' := by
  induction fuel generalizing k t with
  | zero => exact fun hok => by cases hok
  | succ fuel ih =>
    have hin := (h.within _ htop .z).2
    have hend : k ≤ s.hi .z := by
      rw [h.hi]
      simp only [Axis.coord] at hin
      omega
    by_cases hind : Ind (i, j, k - 1)
    · by_cases hc : OutOfRange (i, j, k) s.level
      · rw [h.fillColumn_null hend hind hc]
        exact fun hok => by cases hok
      · have hrange := not_outOfRange_iff.mp hc .z
        rw [h.fillColumn_found hend hind hc]
        exact ih _ (nextIndex_spec (findNode_le _ _ _) hrange).2.1 _
    · rw [h.fillColumn_skip hend hind]
      apply ih
      rcases hk.lt_or_eq with hlt | rfl
      · exact hlt
      · exact absurd htop hind

theorem fill_ne_ok (h : SweepsOver s num Ind) {c : Cell} (hc : Ind c) (htop : c.2.2 + 1 = 2 ^ s.level) (minL : ℤ) (fuel : ℕ)
    (t t' : GrGeomOctree) : s.fill minL fuel t ≠ .ok t' := by
  have hx := h.within c hc .x
  have hy := h.within c hc .y
  have hfitsx := h.fits .x
  have hfitsy := h.fits .y
  simp only [Axis.coord] at hx hy
  have htop' : Ind (c.1, c.2.1, 2 ^ s.level - 1) := by
    rw [← htop, add_sub_cancel_right]
    exact hc
  have hpos : (0 : ℤ) < 2 ^ s.level := by positivity
  apply ExceptLoop.foldlM_ne_ok (x := c.2.1)
  · intro st st'
    apply ExceptLoop.foldlM_ne_ok (x := c.1)
    · intro st st'
      apply fillColumn_ne_ok h htop'
      rw [h.lo]
      omega
    · rw [mem_upto, h.lo, h.hi]
      omega
  · rw [mem_upto, h.lo, h.hi]
    omega

end ParFlow.Geom
