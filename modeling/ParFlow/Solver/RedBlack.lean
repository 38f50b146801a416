import ParFlow.Solver.RedBlackSweep

/-! Red/black Gauss-Seidel on the processes of a layout gives the values of the undivided grid. The shortcut
for a start vector of zeros gives the same values, unless `max_iter` is negative and the sweeps are
symmetric. -/

namespace ParFlow

open Cover Subregion PointLoop

/-! ## The order of the sweeps -/

section Order

variable {σ τ : Type*} {S : Sweeps σ} {T : Sweeps τ} {R : σ → τ → Prop} {maxIter : ℤ}

theorem regularIterations_of_le (count : ℕ) (h : ((count / 2 : ℕ) : ℤ) ≤ maxIter) (rb : Bool) (x : σ) :
    regularIterations S maxIter count rb x = regularIterations S maxIter (count + 1) (!rb) (S.half count rb x) := by
  rw [regularIterations, if_pos h]

theorem regularIterations_of_lt (count : ℕ) (h : maxIter < ((count / 2 : ℕ) : ℤ)) (rb : Bool) (x : σ) :
    regularIterations S maxIter count rb x = x := by
  rw [regularIterations, if_neg (not_le.mpr h)]

/-- What every half sweep keeps is kept by all of them. -/
theorem regularIterations_rel (hhalf : ∀ count rb x f, R x f → R (S.half count rb x) (T.half count rb f)) (count : ℕ) (rb : Bool)
    {x : σ} {f : τ} (h : R x f) : R (regularIterations S maxIter count rb x) (regularIterations T maxIter count rb f) := by
  induction hn : (2 * maxIter + 2 - count).toNat using Nat.strong_induction_on generalizing count rb x f with
  | _ n ih =>
    by_cases hle : ((count / 2 : ℕ) : ℤ) ≤ maxIter
    · rw [regularIterations_of_le _ hle, regularIterations_of_le _ hle]
      exact ih _ (by omega) (count + 1) (!rb) (hhalf count rb x f h) rfl
    · rw [regularIterations_of_lt _ (not_le.mp hle), regularIterations_of_lt _ (not_le.mp hle)]
      exact h

theorem redBlackOrder_rel (hinit : ∀ x f, R x f → R (S.init x) (T.init f)) (hfirst : ∀ x f, R x f → R (S.first x) (T.first f))
    (hhalf : ∀ count rb x f, R x f → R (S.half count rb x) (T.half count rb f)) (symmetric zero : Bool) {x : σ} {f : τ}
    (h : R x f) : R (redBlackOrder S maxIter symmetric zero x) (redBlackOrder T maxIter symmetric zero f) := by
  unfold redBlackOrder
  cases zero with
  | false =>
    simp only [Bool.false_eq_true, if_false]
    exact regularIterations_rel hhalf _ _ h
  | true =>
    simp only [if_true]
    by_cases hgt : ((((if symmetric then 1 else 2) + 1) / 2 : ℕ) : ℤ) > maxIter
    · rw [if_pos hgt, if_pos hgt]
      cases symmetric with
      | false => exact hinit x f h
      | true => exact regularIterations_rel hhalf _ _ (hfirst _ _ (hinit x f h))
    · rw [if_neg hgt, if_neg hgt]
      exact regularIterations_rel hhalf _ _ (hfirst x f h)

end Order

/-! ## The shortcut for zeros on the undivided grid -/

section Zero

variable {s : StencilShape} {a : ℕ → Cell → ℚ} {b f f' : Cell → ℚ} {D : Set Cell} {maxIter : ℤ}
  (hs : ∀ e ∈ [1, 2, 3, 4, 5, 6], stencilElt s e ∈ updateAllShape)
  (hout : ∀ c ∈ D, ∀ e ∈ [1, 2, 3, 4, 5, 6], c + stencilElt s e ∉ D → a e c = 0)

theorem gsValue_zero (c : Cell) : gsValue s a b (fun _ => 0) c = b c / a 0 c := by
  simp [gsValue]

include hout

theorem gsValue_congr_on {c : Cell} (hc : c ∈ D)
    (hf : ∀ e ∈ [1, 2, 3, 4, 5, 6], c + stencilElt s e ∈ D → f (c + stencilElt s e) = f' (c + stencilElt s e)) :
    gsValue s a b f c = gsValue s a b f' c := by
  apply gsValue_congr rfl rfl
  intro e he
  by_cases hmem : c + stencilElt s e ∈ D
  · rw [hf e he hmem]
  · rw [hout c hc e he hmem, zero_mul, zero_mul]

theorem half_congr_on (h : ∀ c ∈ D, f c = f' c) (count : ℕ) (rb : Bool) :
    ∀ c ∈ D, (gridSweeps s a b).half count rb f c = (gridSweeps s a b).half count rb f' c := by
  intro c hc
  show (if _ then _ else _) = if _ then _ else _
  rw [gsValue_congr_on hout hc fun e _ hmem => h _ hmem, h c hc]

include hs

/-- The black points do not matter before a black half sweep. -/
theorem blackHalf_congr_on (h : ∀ c ∈ D, IsRed c → f c = f' c) (count : ℕ) :
    ∀ c ∈ D, (gridSweeps s a b).half count true f c = (gridSweeps s a b).half count true f' c := by
  intro c hc
  show (if OfColour true c then _ else _) = if OfColour true c then _ else _
  by_cases hred : IsRed c
  · have hno : ¬ OfColour true c := not_not.mpr hred
    rw [if_neg hno, if_neg hno, h c hc hred]
  · have hyes : OfColour true c := hred
    rw [if_pos hyes, if_pos hyes]
    apply gsValue_congr_on hout hc
    intro e he hmem
    exact h _ hmem ((isRed_add (hs e he)).mpr hred)

/-- With at least one iteration, the second half sweep makes up for what the shortcut leaves out. -/
theorem shortcut_eq_of_pos (hm : 1 ≤ maxIter) (symmetric : Bool) (f : Cell → ℚ) : ∀ c ∈ D,
    redBlackOrder (gridSweeps s a b) maxIter symmetric true f c =
      redBlackOrder (gridSweeps s a b) maxIter symmetric false (fun _ => 0) c := by
  have hred : ∀ count, ∀ c ∈ D, IsRed c → (gridSweeps s a b).first f c = (gridSweeps s a b).half count false (fun _ => 0) c := by
    intro count c _ hc
    show (if IsRed c then _ else _) = if OfColour false c then _ else _
    rw [if_pos hc, if_pos (show OfColour false c from hc), gsValue_zero]
  have hloop : ∀ count count', ((count / 2 : ℕ) : ℤ) ≤ maxIter → ∀ c ∈ D,
      regularIterations (gridSweeps s a b) maxIter count true ((gridSweeps s a b).first f) c =
        regularIterations (gridSweeps s a b) maxIter count true ((gridSweeps s a b).half count' false fun _ => 0) c := by
    intro count count' hle
    rw [regularIterations_of_le _ hle, regularIterations_of_le _ hle]
    exact regularIterations_rel (R := fun f f' : Cell → ℚ => ∀ c ∈ D, f c = f' c)
      (fun count rb f f' h => half_congr_on hout h count rb) _ _ (blackHalf_congr_on hs hout (hred count') count)
  unfold redBlackOrder
  cases symmetric with
  | true =>
    have h₁ : ¬ ((((1 + 1) / 2 : ℕ) : ℤ) > maxIter) := by omega
    simp only [if_true, h₁, if_false, Bool.false_eq_true]
    rw [regularIterations_of_le 1 (by omega)]
    exact hloop 2 1 (by omega)
  | false =>
    have h₁ : ¬ ((((2 + 1) / 2 : ℕ) : ℤ) > maxIter) := by omega
    simp only [if_true, h₁, if_false, Bool.false_eq_true]
    rw [regularIterations_of_le 2 (by omega)]
    exact hloop 3 2 (by omega)

theorem shortcut_iff (hdiag : ∀ c ∈ D, a 0 c ≠ 0) (maxIter : ℤ) (symmetric : Bool) (f : Cell → ℚ) :
    (∀ c ∈ D, redBlackOrder (gridSweeps s a b) maxIter symmetric true f c =
      redBlackOrder (gridSweeps s a b) maxIter symmetric false (fun _ => 0) c) ↔
      (0 ≤ maxIter ∨ symmetric = false ∨ ∀ c ∈ D, IsRed c → b c = 0) := by
  by_cases hm : 1 ≤ maxIter
  · exact iff_of_true (shortcut_eq_of_pos hs hout hm symmetric f) (Or.inl (by omega))
  cases symmetric with
  | false =>
    -- both leave the vector of zeros
    have h₁ : (((2 + 1) / 2 : ℕ) : ℤ) > maxIter := by omega
    refine iff_of_true ?_ (Or.inr (Or.inl rfl))
    intro c _
    unfold redBlackOrder
    simp only [Bool.false_eq_true, if_false, if_true, h₁, Bool.not_false]
    rw [regularIterations_of_lt 2 (by omega)]
    rfl
  | true =>
    have h₁ : (((1 + 1) / 2 : ℕ) : ℤ) > maxIter := by omega
    have hzero : redBlackOrder (gridSweeps s a b) maxIter true true f = fun c => if IsRed c then b c / a 0 c else 0 := by
      unfold redBlackOrder
      simp only [if_true, h₁, Bool.not_true, Bool.false_eq_true, if_false]
      rw [regularIterations_of_lt (1 + 1) (by omega)]
      rfl
    rw [hzero]
    by_cases h0 : 0 ≤ maxIter
    · refine iff_of_true ?_ (Or.inl h0)
      intro c _
      unfold redBlackOrder
      simp only [if_true, Bool.false_eq_true, if_false]
      rw [regularIterations_of_le 1 (by omega), regularIterations_of_lt (1 + 1) (by omega)]
      show _ = if OfColour false c then _ else _
      rw [gsValue_zero]
      rfl
    · have hskip : redBlackOrder (gridSweeps s a b) maxIter true false (fun _ => 0) = fun _ => 0 := by
        unfold redBlackOrder
        simp only [if_true, Bool.false_eq_true, if_false]
        rw [regularIterations_of_lt 1 (by omega)]
      rw [hskip]
      constructor
      · intro h
        refine Or.inr (Or.inr ?_)
        intro c hc hred
        have hval : (if IsRed c then b c / a 0 c else 0) = 0 := h c hc
        rw [if_pos hred, div_eq_zero_iff] at hval
        exact hval.resolve_right (hdiag c hc)
      · rintro (h | h | h)
        · exact absurd h h0
        · exact absurd h (by decide)
        · intro c hc
          show (if IsRed c then b c / a 0 c else 0) = 0
          by_cases hred : IsRed c
          · rw [if_pos hred, h c hc hred, zero_div]
          · rw [if_neg hred]

end Zero

/-! ## All processes -/

namespace Layout

variable {L : Layout} {g : ℤ} {s : StencilShape} {A : ℤ → ℕ → Submatrix} {b : ℤ → ℕ → Subvector ℚ}
  {update : ℕ → Bool → VectorUpdate} {t : Subgrid} {x : ℤ → ℕ → Subvector ℚ} {f : Cell → ℚ}

theorem init_represents (hP : RedBlackProblem L g s A b update) (hx : L.Represents g x f) :
    L.Represents g ((processSweeps L.allSubgrids s A b update).init x) fun _ => 0 := by
  have hvec : ∀ t ∈ L.allSubgrids, (processSweeps L.allSubgrids s A b update).init x t.process 0 =
      mapBox (fun _ => 0) t (x t.process 0) := by
    intro t ht
    have hown : getGridSubgrids L.allSubgrids t.process = [t] :=
      own_eq_of_onePerProcess hP.onePerProcess (mem_own.mpr ⟨ht, rfl⟩)
    simp only [processSweeps, initVector, gridOn, hown, List.zipIdx_singleton, List.foldl_cons, List.foldl_nil,
      Function.update_self]
  constructor
  · intro t ht
    rw [hvec t ht]
    exact hx.space t ht
  · intro t ht c hc
    have hsub : ∀ c ∈ t.cells, c ∈ (x t.process 0).dataSpace.cells := by
      intro c hc
      rw [hx.space t ht]
      exact mem_ghostSpace_of_mem (by have := hP.ghost; omega) hc
    rw [hvec t ht, mapBox_get _ (hP.unitStride t ht) hsub (hsub c hc), if_pos hc]

/-- The sweep over red points that reads no neighbour. -/
theorem firstBoxes_get (hP : RedBlackProblem L g s A b update) (ht : t ∈ L.allSubgrids) {boxes : SubgridArray} {cover : Set Cell}
    (hex : Exact cells boxes {c | c ∈ t.cells ∧ c ∈ cover}) {y : Subvector ℚ} (hy : y.dataSpace = ghostSpace t g) :
    ((projectParts red boxes).foldl (firstBox (A t.process 0) (b t.process 0)) y).dataSpace = ghostSpace t g ∧
      (∀ c ∈ t.cells, c ∈ cover → IsRed c → ((projectParts red boxes).foldl (firstBox (A t.process 0) (b t.process 0)) y).get c =
        (b t.process 0).get c / (A t.process 0).coeff 0 c) ∧
      ∀ c ∈ (ghostSpace t g).cells, ¬ ((c ∈ t.cells ∧ c ∈ cover) ∧ IsRed c) →
        ((projectParts red boxes).foldl (firstBox (A t.process 0) (b t.process 0)) y).get c = y.get c := by
  have hmem := fun c => mem_parts false c (hP.nonneg t ht) hex
  have hsub : ∀ c ∈ t.cells, c ∈ (ghostSpace t g).cells := fun c hc => mem_ghostSpace_of_mem (by have := hP.ghost; omega) hc
  obtain ⟨hspace, hin, hout⟩ := foldl_boxes_get (firstBox (A t.process 0) (b t.process 0))
    (fun c => (b t.process 0).get c / (A t.process 0).coeff 0 c) IsRed
    (fun u (hu : u ∈ projectParts red boxes) c hc => ((hmem c).mp ⟨u, hu, hc⟩).2) (by
      intro u hu z hz _
      refine ⟨hz, ?_⟩
      intro c hc
      exact firstBox_get (parts_strided false hu) (hP.matrixSpace t ht) ((hP.rhsSpace t ht).trans hz.symm)
        (fun d hd => hz ▸ hsub d ((hmem d).mp ⟨u, hu, hd⟩).1.1) (hz ▸ hc)) hy
  refine ⟨hspace, ?_, ?_⟩
  · intro c hc hcover hred
    exact hin c (hsub c hc) ((hmem c).mpr ⟨⟨hc, hcover⟩, hred⟩)
  · intro c hc hno
    apply hout c hc
    intro u hu hcu
    exact hno ((hmem c).mp ⟨u, hu, hcu⟩)

theorem first_represents (hP : RedBlackProblem L g s A b update) (hx : L.Represents g x f) :
    L.Represents g ((processSweeps L.allSubgrids s A b update).first x)
      ((gridSweeps s (L.gridCoeff A) (L.gridValue b)).first f) := by
  have hvec : ∀ t ∈ L.allSubgrids, (processSweeps L.allSubgrids s A b update).first x t.process 0 =
      (projectParts red (L.depArray updateAllShape t.process t)).foldl (firstBox (A t.process 0) (b t.process 0))
        ((projectParts red (L.indArray updateAllShape t.process t)).foldl (firstBox (A t.process 0) (b t.process 0))
          (x t.process 0)) := by
    intro t ht
    have hown : L.own t.process = [t] := own_eq_of_onePerProcess hP.onePerProcess (mem_own.mpr ⟨ht, rfl⟩)
    obtain ⟨hind, hdep⟩ := modePkg_regions L false t.process
    rw [hown, List.map_singleton] at hind hdep
    rw [← forSubregions_singleton (fun i => firstBox (A t.process i) (b t.process i)) _ (x t.process),
      ← forSubregions_singleton (fun i => firstBox (A t.process i) (b t.process i))]
    exact congrArg₂ (fun r r' => forSubregions (fun i => firstBox (A t.process i) (b t.process i)) r
      (forSubregions (fun i => firstBox (A t.process i) (b t.process i)) r' (x t.process)) 0) hdep hind
  have hget := fun t ht => firstBoxes_get hP ht (ind_exact hP ht) (hx.space t ht)
  have hget' := fun t ht => firstBoxes_get hP ht (dep_exact hP ht) (hget t ht).1
  constructor
  · intro t ht
    rw [hvec t ht]
    exact (hget' t ht).1
  · intro t ht c hc
    have hmem : c ∈ (ghostSpace t g).cells := mem_ghostSpace_of_mem (by have := hP.ghost; omega) hc
    rw [hvec t ht]
    show _ = if IsRed c then _ else _
    rw [gridValue_of_mem ht hc, gridCoeff_of_mem ht hc]
    by_cases hred : IsRed c
    · rw [if_pos hred]
      by_cases hdep : ∃ n ∈ L.allSubgrids, Halo updateAllShape n c
      · exact (hget' t ht).2.1 c hc hdep hred
      · rw [(hget' t ht).2.2 c hmem fun h => hdep h.1.2]
        exact (hget t ht).2.1 c hc (fun n hn hh => hdep ⟨n, hn, hh⟩) hred
    · rw [if_neg hred, (hget' t ht).2.2 c hmem fun h => hred h.2, (hget t ht).2.2 c hmem fun h => hred h.2,
        hx.value t ht c hc]

/-- The processes together compute what the same sweeps give on the undivided grid. -/
theorem redBlack_represents (hP : RedBlackProblem L g s A b update) (hx : L.Represents g x f) (maxIter : ℤ) (symmetric zero : Bool) :
    L.Represents g (redBlackGSPoint L.allSubgrids s A b update maxIter symmetric zero x)
      (redBlackOrder (gridSweeps s (L.gridCoeff A) (L.gridValue b)) maxIter symmetric zero f) := by
  apply redBlackOrder_rel (R := fun x f => L.Represents g x f)
  · exact fun x f h => init_represents hP h
  · exact fun x f h => first_represents hP h
  · intro count rb x f h
    exact ⟨fun t ht => (half_get hP ht h count rb).1, fun t ht => (half_get hP ht h count rb).2⟩
  · exact hx

theorem represents_gridValue (hx : ∀ t ∈ L.allSubgrids, (x t.process 0).dataSpace = ghostSpace t g) :
    L.Represents g x (L.gridValue x) :=
  ⟨hx, fun _ ht _ hc => (gridValue_of_mem ht hc).symm⟩

/-- On the cells of the layout, the shortcut is right just when it is on the undivided grid. -/
theorem shortcut_iff_grid (hP : RedBlackProblem L g s A b update) (maxIter : ℤ) (symmetric : Bool) {z : ℤ → ℕ → Subvector ℚ}
    (hx : ∀ t ∈ L.allSubgrids, (x t.process 0).dataSpace = ghostSpace t g)
    (hz : ∀ t ∈ L.allSubgrids, (z t.process 0).dataSpace = ghostSpace t g ∧ ∀ a, (z t.process 0).data a = 0) :
    (∀ t ∈ L.allSubgrids, ∀ c ∈ t.cells,
      (redBlackGSPoint L.allSubgrids s A b update maxIter symmetric true x t.process 0).get c =
        (redBlackGSPoint L.allSubgrids s A b update maxIter symmetric false z t.process 0).get c) ↔
      (0 ≤ maxIter ∨ symmetric = false ∨ ∀ t ∈ L.allSubgrids, ∀ c ∈ t.cells, IsRed c → (b t.process 0).get c = 0) := by
  have hgrid := (redBlack_represents hP (represents_gridValue hx) maxIter symmetric true).value
  have hzeros : L.Represents g z fun _ => 0 := ⟨fun t ht => (hz t ht).1, fun t ht c _ => (hz t ht).2 _⟩
  have hzgrid := (redBlack_represents hP hzeros maxIter symmetric false).value
  have hiff := shortcut_iff (D := {c | ∃ t ∈ L.allSubgrids, c ∈ t.cells}) (a := L.gridCoeff A) (b := L.gridValue b) hP.stencil (by
    rintro c ⟨t, ht, hc⟩ e he hout
    rw [gridCoeff_of_mem ht hc]
    exact hP.outside t ht c hc e he fun n hn hcn => hout ⟨n, hn, hcn⟩) (by
    rintro c ⟨t, ht, hc⟩
    rw [gridCoeff_of_mem ht hc]
    exact hP.diagonal t ht c hc) maxIter symmetric (L.gridValue x)
  have hcond : (∀ c ∈ {c | ∃ t ∈ L.allSubgrids, c ∈ t.cells}, IsRed c → L.gridValue b c = 0) ↔
      ∀ t ∈ L.allSubgrids, ∀ c ∈ t.cells, IsRed c → (b t.process 0).get c = 0 := by
    constructor
    · intro h t ht c hc hred
      rw [← gridValue_of_mem ht hc]
      exact h c ⟨t, ht, hc⟩ hred
    · rintro h c ⟨t, ht, hc⟩ hred
      rw [gridValue_of_mem ht hc]
      exact h t ht c hc hred
  rw [hcond] at hiff
  rw [← hiff]
  constructor
  · rintro h c ⟨t, ht, hc⟩
    rw [← hgrid t ht c hc, ← hzgrid t ht c hc]
    exact h t ht c hc
  · intro h t ht c hc
    rw [hgrid t ht c hc, hzgrid t ht c hc]
    exact h c ⟨t, ht, hc⟩

/-- The values do not depend on the layout. The shortcut gives the same ones unless `max_iter` is negative:
then symmetric sweeps still make the red sweep that a start without the shortcut leaves out. -/
theorem redBlackGSPoint_iff (hP : RedBlackProblem L g s A b update) (maxIter : ℤ) (symmetric : Bool) (x z : ℤ → ℕ → Subvector ℚ)
    (hx : ∀ t ∈ L.allSubgrids, (x t.process 0).dataSpace = ghostSpace t g)
    (hz : ∀ t ∈ L.allSubgrids, (z t.process 0).dataSpace = ghostSpace t g ∧ ∀ a, (z t.process 0).data a = 0) :
    ((∀ zero, ∀ t ∈ L.allSubgrids, ∀ c ∈ t.cells,
        (redBlackGSPoint L.allSubgrids s A b update maxIter symmetric zero x t.process 0).get c =
          redBlackOrder (gridSweeps s (L.gridCoeff A) (L.gridValue b)) maxIter symmetric zero (L.gridValue x) c) ∧
      ∀ t ∈ L.allSubgrids, ∀ c ∈ t.cells,
        (redBlackGSPoint L.allSubgrids s A b update maxIter symmetric true x t.process 0).get c =
          (redBlackGSPoint L.allSubgrids s A b update maxIter symmetric false z t.process 0).get c) ↔
      (0 ≤ maxIter ∨ symmetric = false ∨ ∀ t ∈ L.allSubgrids, ∀ c ∈ t.cells, IsRed c → (b t.process 0).get c = 0) := by
  rw [← shortcut_iff_grid hP maxIter symmetric hx hz]
  constructor
  · exact fun h => h.2
  · intro h
    refine ⟨?_, h⟩
    intro zero
    exact (redBlack_represents hP (represents_gridValue hx) maxIter symmetric zero).value

/-! ## An exchange -/

/-- The exchange that takes the values of the owners when it is finalized. -/
def ownersUpdate (L : Layout) (mode : UpdateMode) : VectorUpdate where
  during := fun x p => x p
  finalize := fun x p y i =>
    { y i with
      data := fun a => ((y i).dataSpace.points.find? fun c => cellIndex (y i).dataSpace c = a ∧
        (createComputePkgs (gridOn L.allSubgrids p) mode).recvRegion.flatten.any fun u => c ∈ u.points).elim
          ((y i).data a) (L.gridValue x) }

theorem ownersUpdate_delivers (L : Layout) (mode : UpdateMode) (g : ℤ) : (L.ownersUpdate mode).Delivers L mode g := by
  have hunit : ∀ t : Subgrid, (ghostSpace t g).UnitStride := fun t => ⟨rfl, rfl, rfl⟩
  constructor
  · intro x t _ hx
    exact ⟨hx, fun _ _ _ => rfl⟩
  · intro x t _ y hy
    refine ⟨hy, ?_⟩
    intro c hc
    have hreceives : ∀ d, (((createComputePkgs (gridOn L.allSubgrids t.process) mode).recvRegion.flatten.any
        fun u => d ∈ u.points) = true ↔ L.Receives mode t d) := by
      intro d
      rw [List.any_eq_true]
      simp only [decide_eq_true_eq]
      rfl
    -- the only cell at this address
    have hfound : ∀ d, ((y 0).dataSpace.points.find? fun e => cellIndex (y 0).dataSpace e = cellIndex (ghostSpace t g) c ∧
        (createComputePkgs (gridOn L.allSubgrids t.process) mode).recvRegion.flatten.any fun u => e ∈ u.points) = some d →
        d = c ∧ L.Receives mode t c := by
      intro d hd
      have hmem := List.mem_of_find?_eq_some hd
      have hprop := List.find?_some hd
      simp only [decide_eq_true_eq] at hprop
      rw [hy] at hmem hprop
      have hdc := cellIndex_inj ((mem_points_iff (hunit t)).mp hmem) hc hprop.1
      subst hdc
      exact ⟨rfl, (hreceives d).mp hprop.2⟩
    have hget : ((L.ownersUpdate mode).finalize x t.process y 0).get c =
        ((y 0).dataSpace.points.find? fun e => cellIndex (y 0).dataSpace e = cellIndex (ghostSpace t g) c ∧
          (createComputePkgs (gridOn L.allSubgrids t.process) mode).recvRegion.flatten.any fun u => e ∈ u.points).elim
            ((y 0).data (cellIndex (ghostSpace t g) c)) (L.gridValue x) := by
      rw [← hy]
      rfl
    rw [hget]
    cases hfind : (y 0).dataSpace.points.find? fun e => cellIndex (y 0).dataSpace e = cellIndex (ghostSpace t g) c ∧
        (createComputePkgs (gridOn L.allSubgrids t.process) mode).recvRegion.flatten.any fun u => e ∈ u.points with
    | some d =>
      obtain ⟨rfl, hr⟩ := hfound d hfind
      exact ⟨fun hno => absurd hr hno, fun _ n hn hcn => gridValue_of_mem hn hcn⟩
    | none =>
      have hno : ¬ L.Receives mode t c := by
        intro hr
        rw [List.find?_eq_none] at hfind
        apply hfind c
        · rw [hy]
          exact (mem_points_iff (hunit t)).mpr hc
        · rw [hy]
          exact decide_eq_true ⟨rfl, (hreceives c).mpr hr⟩
      refine ⟨fun _ => ?_, fun hr => absurd hr hno⟩
      rw [← hy]
      rfl

/-- Two cells with the diagonal 2, coupled by -1. -/
def pairMatrix (p : ℤ) : Submatrix :=
  ⟨newSubgrid p 0 0 1 1 1 0 0 0 p, fun e => e, fun a => if a = 0 then 2 else if a + p = 2 then -1 else 0⟩

theorem pair_problem : RedBlackProblem pair 1 sevenPoint (fun p _ => pairMatrix p) (fun p _ => constantVector 1 p)
    fun _ rb => pair.ownersUpdate (sweepMode rb) where
  onePerProcess := by
    unfold OnePerProcess
    decide
  nonneg := by decide
  unitStride := by decide
  ghost := le_rfl
  stencil := by decide
  matrixSpace := fun t _ => ⟨rfl, rfl, rfl⟩
  rhsSpace := by decide
  diagonal := by decide
  outside := by decide
  delivers := fun _ rb => ownersUpdate_delivers pair (sweepMode rb) 1

theorem pair_redBlack :
    ((∀ zero, ∀ t ∈ pair.allSubgrids, ∀ c ∈ t.cells,
        (redBlackGSPoint pair.allSubgrids sevenPoint (fun p _ => pairMatrix p) (fun p _ => constantVector 1 p)
          (fun _ rb => pair.ownersUpdate (sweepMode rb)) 3 true zero (fun p _ => constantVector 5 p) t.process 0).get c =
          redBlackOrder (gridSweeps sevenPoint (pair.gridCoeff fun p _ => pairMatrix p)
            (pair.gridValue fun p _ => constantVector 1 p)) 3 true zero (pair.gridValue fun p _ => constantVector 5 p) c) ∧
      ∀ t ∈ pair.allSubgrids, ∀ c ∈ t.cells,
        (redBlackGSPoint pair.allSubgrids sevenPoint (fun p _ => pairMatrix p) (fun p _ => constantVector 1 p)
          (fun _ rb => pair.ownersUpdate (sweepMode rb)) 3 true true (fun p _ => constantVector 5 p) t.process 0).get c =
          (redBlackGSPoint pair.allSubgrids sevenPoint (fun p _ => pairMatrix p) (fun p _ => constantVector 1 p)
          (fun _ rb => pair.ownersUpdate (sweepMode rb)) 3 true false
            (fun p _ => ⟨ghostSpace (newSubgrid p 0 0 1 1 1 0 0 0 p) 1, fun _ => 0⟩) t.process 0).get c) :=
  (redBlackGSPoint_iff pair_problem 3 true (fun p _ => constantVector 5 p)
    (fun p _ => ⟨ghostSpace (newSubgrid p 0 0 1 1 1 0 0 0 p) 1, fun _ => 0⟩) (by decide)
    (fun t ht => ⟨by revert t; decide, fun _ => rfl⟩)).mpr (Or.inl (by decide))

/-- With `max_iter = -1` the red cell `(1, 0, 0)` gets `b / a0 = 1` with the shortcut, and keeps 0 without it. -/
theorem pair_shortcut_differs :
    ¬ ∀ (L : Layout) (g : ℤ) (s : StencilShape) (A : ℤ → ℕ → Submatrix) (b : ℤ → ℕ → Subvector ℚ)
      (update : ℕ → Bool → VectorUpdate), RedBlackProblem L g s A b update →
      ∀ (maxIter : ℤ) (symmetric : Bool) (x z : ℤ → ℕ → Subvector ℚ),
      (∀ t ∈ L.allSubgrids, (x t.process 0).dataSpace = ghostSpace t g) →
      (∀ t ∈ L.allSubgrids, (z t.process 0).dataSpace = ghostSpace t g ∧ ∀ a, (z t.process 0).data a = 0) →
      (∀ zero, ∀ t ∈ L.allSubgrids, ∀ c ∈ t.cells,
        (redBlackGSPoint L.allSubgrids s A b update maxIter symmetric zero x t.process 0).get c =
          redBlackOrder (gridSweeps s (L.gridCoeff A) (L.gridValue b)) maxIter symmetric zero (L.gridValue x) c) ∧
      ∀ t ∈ L.allSubgrids, ∀ c ∈ t.cells,
        (redBlackGSPoint L.allSubgrids s A b update maxIter symmetric true x t.process 0).get c =
          (redBlackGSPoint L.allSubgrids s A b update maxIter symmetric false z t.process 0).get c := by
  intro h
  have hx : ∀ t ∈ pair.allSubgrids, (constantVector 5 t.process).dataSpace = ghostSpace t 1 := by decide
  have hz : ∀ t ∈ pair.allSubgrids, (ghostSpace (newSubgrid t.process 0 0 1 1 1 0 0 0 t.process) 1) = ghostSpace t 1 := by decide
  have hshortcut := (h pair 1 sevenPoint _ _ _ pair_problem (-1) true (fun p _ => constantVector 5 p)
    (fun p _ => ⟨ghostSpace (newSubgrid p 0 0 1 1 1 0 0 0 p) 1, fun _ => 0⟩) hx fun t ht => ⟨hz t ht, fun _ => rfl⟩).2
  rw [shortcut_iff_grid pair_problem (-1) true hx fun t ht => ⟨hz t ht, fun _ => rfl⟩] at hshortcut
  rcases hshortcut with h | h | h
  · exact absurd h (by decide)
  · exact absurd h (by decide)
  · have hb : (1 : ℚ) + ((1 : ℤ) : ℚ) = 0 := h (newSubgrid 1 0 0 1 1 1 0 0 0 1) (by decide) (1, 0, 0) (by decide) (by decide)
    norm_num at hb

end Layout

end ParFlow
