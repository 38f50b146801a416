import ParFlow.Solver.MGSemiCoarsen

/-! The levels that `MGSemi` touches. The finest level is handled outside the loops over the levels, as if there were
a second one, so that every index is inside its array exactly when there is one. -/

namespace ParFlow

open IntLoop CheckedArray

variable {K σ Module Matrix Vector Pkg CommPkg : Type}

/-- The arrays of an instance have a place for each level, and those of the transfers one less. -/
structure MGSemiInstance.IsSized (inst : MGSemiInstance Module Matrix Pkg) : Prop where
  pos : 1 ≤ inst.numLevels
  gridL : (inst.gridL.length : ℤ) = inst.numLevels
  aL : (inst.aL.length : ℤ) = inst.numLevels
  smoothL : (inst.smoothL.length : ℤ) = inst.numLevels
  fSraL : (inst.fSraL.length : ℤ) = inst.numLevels - 1
  cSraL : (inst.cSraL.length : ℤ) = inst.numLevels - 1
  restrictComputePkgL : (inst.restrictComputePkgL.length : ℤ) = inst.numLevels - 1
  prolongComputePkgL : (inst.prolongComputePkgL.length : ℤ) = inst.numLevels - 1
  pL : (inst.pL.length : ℤ) = inst.numLevels - 1

structure MGSemiWork.IsSized (w : MGSemiWork Vector CommPkg) (numLevels : ℤ) : Prop where
  xL : (w.xL.length : ℤ) = numLevels
  bL : (w.bL.length : ℤ) = numLevels
  tempVecL : (w.tempVecL.length : ℤ) = numLevels
  restrictCommPkgL : (w.restrictCommPkgL.length : ℤ) = numLevels - 1
  prolongCommPkgL : (w.prolongCommPkgL.length : ℤ) = numLevels - 1

/-- Some direction can be coarsened: it has enough cells, and its spacing is less than the sum of all. -/
def CanCoarsen [Field K] [LinearOrder K] (xtra : MGSemiPublicXtra) (s : Spacing K) : Prop :=
  ∃ a, max (2 * xtra.minN a - 1) 2 ≤ s.n a ∧ s.d a < s.d .x + s.d .y + s.d .z

/-! ## The number of levels -/

section

variable [Field K] [LinearOrder K]

omit [Field K] in
theorem foldl_trySpacing_isSome (minN : Axis → ℤ) (s : Spacing K) (sum : K) (l : List Axis) :
    (l.foldl (trySpacing minN s) (sum, none)).2.isSome ↔ ∃ a ∈ l, minN a ≤ s.n a ∧ s.d a < sum := by
  have hstays : ∀ (l : List Axis) (m : K × Option Axis), m.2.isSome → (l.foldl (trySpacing minN s) m).2.isSome := by
    intro l
    induction l with
    | nil => exact fun m hm => hm
    | cons a l ih =>
      intro m hm
      apply ih
      unfold trySpacing
      split_ifs
      · rfl
      · exact hm
  induction l with
  | nil => simp
  | cons a l ih =>
    rw [List.foldl_cons]
    by_cases h : s.n a ≥ minN a ∧ s.d a < sum
    · have hstep : trySpacing minN s (sum, none) a = (s.d a, some a) := if_pos h
      rw [hstep]
      exact iff_of_true (hstays l _ rfl) ⟨a, List.mem_cons_self, h⟩
    · have hstep : trySpacing minN s (sum, none) a = (sum, none) := if_neg h
      rw [hstep]
      refine ih.trans ?_
      constructor
      · rintro ⟨b, hb, hcoarsen⟩
        exact ⟨b, List.mem_cons_of_mem a hb, hcoarsen⟩
      · rintro ⟨b, hb, hcoarsen⟩
        refine ⟨b, (List.mem_cons.mp hb).resolve_left ?_, hcoarsen⟩
        rintro rfl
        exact h hcoarsen

theorem minSpacingDirection_isSome (minN : Axis → ℤ) (s : Spacing K) : (minSpacingDirection minN s).isSome ↔
    ∃ a, minN a ≤ s.n a ∧ s.d a < s.d .x + s.d .y + s.d .z := by
  unfold minSpacingDirection
  rw [foldl_trySpacing_isSome]
  constructor
  · rintro ⟨a, -, h⟩
    exact ⟨a, h⟩
  · rintro ⟨a, h⟩
    refine ⟨a, ?_, h⟩
    cases a <;> decide

/-- A second level needs a round of the loop and a direction for it. -/
theorem coarsenDirections_ne_nil (minN : Axis → ℤ) (rounds : ℕ) (s : Spacing K) : coarsenDirections minN rounds s ≠ [] ↔
    1 ≤ rounds ∧ ∃ a, minN a ≤ s.n a ∧ s.d a < s.d .x + s.d .y + s.d .z := by
  rw [← minSpacingDirection_isSome]
  cases rounds with
  | zero => simp [coarsenDirections]
  | succ rounds =>
    unfold coarsenDirections
    cases minSpacingDirection minN s <;> simp

/-! ## Sizes -/

theorem coarsenGrid_lengths (subgrids : SubgridArray) (myProc : ℤ) (coarsenL : List Axis) :
    ∃ levels, coarsenGrid myProc (gridOn subgrids myProc) coarsenL = some levels ∧
      levels.gridL.length = coarsenL.length + 1 ∧ levels.fSraL.length = coarsenL.length ∧
      levels.cSraL.length = coarsenL.length := by
  induction coarsenL generalizing subgrids with
  | nil => exact ⟨_, rfl, rfl, rfl, rfl⟩
  | cons dir coarsenL ih =>
    obtain ⟨levels, hlevels, hgrid, hf, hc⟩ := ih (subgrids.map (coarseSubgrid dir))
    exact ⟨_, coarsenGrid_cons hlevels, congrArg (· + 1) hgrid, congrArg (· + 1) hf, congrArg (· + 1) hc⟩

/-- The instance is always set up, with one level more than there are directions. -/
theorem mgSemiInitInstanceXtra_sized (ops : MGSemiOps K σ Module Matrix Vector Pkg CommPkg) (xtra : MGSemiPublicXtra)
    (s : Spacing K) (myProc : ℤ) (subgrids : SubgridArray) (A : Matrix) :
    ∃ inst, mgSemiInitInstanceXtra ops xtra s myProc (gridOn subgrids myProc) A = some inst ∧ inst.IsSized ∧
      (2 ≤ inst.numLevels ↔ 2 ≤ xtra.maxLevels ∧ CanCoarsen xtra s) := by
  have hsecond := coarsenDirections_ne_nil (fun a => max (2 * xtra.minN a - 1) 2) (xtra.maxLevels - 1).toNat s
  unfold mgSemiInitInstanceXtra
  dsimp only
  generalize coarsenDirections (fun a => max (2 * xtra.minN a - 1) 2) (xtra.maxLevels - 1).toNat s = coarsenL at hsecond
  obtain ⟨levels, hlevels, hgrid, hf, hc⟩ := coarsenGrid_lengths subgrids myProc coarsenL
  rw [hlevels]
  refine ⟨_, rfl, ⟨?_, ?_, ?_, ?_, ?_, ?_, ?_, ?_, ?_⟩, ?_⟩
  · show (1 : ℤ) ≤ coarsenL.length + 1
    omega
  · show (levels.gridL.length : ℤ) = coarsenL.length + 1
    omega
  · simp [hgrid]
  · simp [hgrid]
  · simp [hf]
  · simp [hc]
  · simp [hgrid]
  · simp [hgrid]
  · simp [hgrid, hf]
  · have hlength : coarsenL ≠ [] ↔ 2 ≤ (coarsenL.length : ℤ) + 1 := by
      rw [← List.length_pos_iff]
      omega
    have hrounds : 1 ≤ (xtra.maxLevels - 1).toNat ↔ 2 ≤ xtra.maxLevels := by omega
    rw [hlength, hrounds] at hsecond
    exact hsecond

end

/-! ## With a second level -/

section

variable {ops : MGSemiOps K σ Module Matrix Vector Pkg CommPkg} {inst : MGSemiInstance Module Matrix Pkg}
  {w : MGSemiWork Vector CommPkg} {l : ℤ}

theorem allocLevel_succeeds (hinst : inst.IsSized) (hw : w.IsSized inst.numLevels) (h0 : 0 ≤ l)
    (hl : l < inst.numLevels - 1) (m : σ) :
    Succeeds (allocLevel ops inst (w, m) l) fun s => s.1.IsSized inst.numLevels := by
  obtain ⟨hx, hb, htemp, hrestrict, hprolong⟩ := hw
  obtain ⟨-, hgrid, -, -, -, -, hrestrictPkg, hprolongPkg, -⟩ := hinst
  have h0' : 0 ≤ l + 1 := by omega
  have hl' : l + 1 < inst.numLevels := by omega
  refine succeeds_read h0' (by rwa [hgrid]) fun grid => ?_
  refine succeeds_write h0' (by rwa [hx]) fun xL hxL => ?_
  refine succeeds_write h0' (by rwa [hb]) fun bL hbL => ?_
  refine succeeds_write h0' (by rwa [htemp]) fun tempVecL htempVecL => ?_
  refine succeeds_read h0 (by rw [htempVecL, htemp]; omega) fun temp => ?_
  refine succeeds_read h0 (by rwa [hrestrictPkg]) fun restrictPkg => ?_
  refine succeeds_write h0 (by rwa [hrestrict]) fun restrictCommPkgL hrestrictCommPkgL => ?_
  refine succeeds_read h0 (by rwa [hprolongPkg]) fun prolongPkg => ?_
  refine succeeds_write h0 (by rwa [hprolong]) fun prolongCommPkgL hprolongCommPkgL => ?_
  refine succeeds_ok ⟨?_, ?_, ?_, ?_, ?_⟩
  · rw [hxL, hx]
  · rw [hbL, hb]
  · rw [htempVecL, htemp]
  · rw [hrestrictCommPkgL, hrestrict]
  · rw [hprolongCommPkgL, hprolong]

theorem allocWork_succeeds (ops : MGSemiOps K σ Module Matrix Vector Pkg CommPkg) (hinst : inst.IsSized) (m : σ) :
    Succeeds (allocWork ops inst m) fun s => s.1.IsSized inst.numLevels := by
  have hpos := hinst.pos
  have hgrid := hinst.gridL
  refine succeeds_read le_rfl (by omega) fun grid => ?_
  refine succeeds_write le_rfl (by rw [List.length_replicate]; omega) fun tempVecL htempVecL => ?_
  rw [List.length_replicate] at htempVecL
  refine succeeds_foldlM (P := fun s => s.1.IsSized inst.numLevels) (fun l hl (s : MGSemiWork Vector CommPkg × σ) hs => ?_) ⟨?_, ?_, ?_, ?_, ?_⟩
  · rw [mem_upto] at hl
    exact allocLevel_succeeds hinst hs hl.1 hl.2 s.2
  all_goals simp only [List.length_replicate]; omega

theorem restrictResidual_succeeds (hinst : inst.IsSized) (hw : w.IsSized inst.numLevels) (h0 : 0 ≤ l)
    (hl : l < inst.numLevels - 1) (A : Matrix) (m : σ) : Succeeds (restrictResidual ops inst w A l m) fun _ => True := by
  obtain ⟨-, hb, htemp, hrestrict, -⟩ := hw
  obtain ⟨-, -, -, -, hf, hc, hpkg, -, hP⟩ := hinst
  refine succeeds_read h0 (by omega) fun temp => ?_
  refine succeeds_read (by omega) (by omega) fun b => ?_
  refine succeeds_read h0 (by omega) fun P => ?_
  refine succeeds_read h0 (by omega) fun f => ?_
  refine succeeds_read h0 (by omega) fun c => ?_
  refine succeeds_read h0 (by omega) fun pkg => ?_
  refine succeeds_read h0 (by omega) fun comm => ?_
  exact succeeds_ok trivial

theorem prolongError_succeeds (hinst : inst.IsSized) (hw : w.IsSized inst.numLevels) (h0 : 0 ≤ l)
    (hl : l < inst.numLevels - 1) (A : Matrix) (m : σ) : Succeeds (prolongError ops inst w A l m) fun _ => True := by
  obtain ⟨hx, -, htemp, -, hprolong⟩ := hw
  obtain ⟨-, -, -, -, hf, hc, -, hpkg, hP⟩ := hinst
  refine succeeds_read h0 (by omega) fun temp => ?_
  refine succeeds_read (by omega) (by omega) fun x => ?_
  refine succeeds_read h0 (by omega) fun P => ?_
  refine succeeds_read h0 (by omega) fun f => ?_
  refine succeeds_read h0 (by omega) fun c => ?_
  refine succeeds_read h0 (by omega) fun pkg => ?_
  refine succeeds_read h0 (by omega) fun comm => ?_
  exact succeeds_ok trivial

theorem downLevel_succeeds (hinst : inst.IsSized) (hw : w.IsSized inst.numLevels) (h0 : 0 ≤ l)
    (hl : l < inst.numLevels - 1) (m : σ) : Succeeds (downLevel ops inst w m l) fun _ => True := by
  have hx := hw.xL
  have hb := hw.bL
  have htemp := hw.tempVecL
  have hsmooth := hinst.smoothL
  have hA := hinst.aL
  refine succeeds_read h0 (by omega) fun smooth => ?_
  refine succeeds_read h0 (by omega) fun x => ?_
  refine succeeds_read h0 (by omega) fun b => ?_
  refine succeeds_read h0 (by omega) fun temp => ?_
  refine succeeds_read h0 (by omega) fun A => ?_
  exact restrictResidual_succeeds hinst hw h0 hl A _

theorem upLevel_succeeds (hinst : inst.IsSized) (hw : w.IsSized inst.numLevels) (h0 : 0 ≤ l)
    (hl : l < inst.numLevels - 1) (m : σ) : Succeeds (upLevel ops inst w m l) fun _ => True := by
  have hx := hw.xL
  have hb := hw.bL
  have htemp := hw.tempVecL
  have hsmooth := hinst.smoothL
  have hA := hinst.aL
  refine succeeds_read h0 (by omega) fun A => ?_
  refine (prolongError_succeeds hinst hw h0 hl A m).bind fun m _ => ?_
  refine succeeds_read h0 (by omega) fun temp => ?_
  refine succeeds_read h0 (by omega) fun x => ?_
  refine succeeds_read h0 (by omega) fun smooth => ?_
  refine succeeds_read h0 (by omega) fun b => ?_
  exact succeeds_ok trivial

theorem vCycle_succeeds (hinst : inst.IsSized) (hw : w.IsSized inst.numLevels) (htwo : 2 ≤ inst.numLevels) (A : Matrix)
    (smooth : Module) (x b temp : Vector) (m : σ) : Succeeds (vCycle ops inst w A smooth x b temp m) fun _ => True := by
  have hx := hw.xL
  have hb := hw.bL
  refine (restrictResidual_succeeds hinst hw le_rfl (by omega) A m).bind fun m _ => ?_
  refine Succeeds.bind (P := fun _ => True) (succeeds_foldlM (fun l hl m _ => ?_) trivial) fun m _ => ?_
  · rw [mem_upto] at hl
    exact downLevel_succeeds hinst hw (by omega) (by omega) m
  refine succeeds_read (by omega) (by omega) fun xBottom => ?_
  refine succeeds_read (by omega) (by omega) fun bBottom => ?_
  refine Succeeds.bind (P := fun _ => True) (succeeds_foldlM (fun l hl m _ => ?_) trivial) fun m _ => ?_
  · rw [List.mem_reverse, mem_upto] at hl
    exact upLevel_succeeds hinst hw (by omega) (by omega) m
  refine (prolongError_succeeds hinst hw le_rfl (by omega) A m).bind fun m _ => ?_
  exact succeeds_ok trivial

/-- On the number of V-cycles that are left. -/
theorem mgSemiLoop_succeeds [Field K] [LinearOrder K] (hinst : inst.IsSized) (hw : w.IsSized inst.numLevels) (htwo : 2 ≤ inst.numLevels) (A : Matrix)
    (smooth : Module) (x b temp : Vector) (tol eps : K) (rounds : ℕ) (almostConverged : Bool) (m : σ) :
    Succeeds (mgSemiLoop ops inst w A smooth x b temp tol eps rounds almostConverged m) fun _ => True := by
  induction rounds generalizing almostConverged m with
  | zero => exact succeeds_ok trivial
  | succ rounds ih =>
    unfold mgSemiLoop
    refine (vCycle_succeeds hinst hw htwo A smooth x b temp _).bind fun m _ => ?_
    exact succeeds_ite (succeeds_ok trivial) (succeeds_ite (succeeds_ok trivial) (ih _ _))

theorem freeLevel_succeeds (hw : w.IsSized inst.numLevels) (h0 : 0 ≤ l) (hl : l < inst.numLevels - 1) (m : σ) :
    Succeeds (freeLevel ops w m l) fun _ => True := by
  obtain ⟨hx, hb, htemp, hrestrict, hprolong⟩ := hw
  refine succeeds_read (by omega) (by omega) fun x => ?_
  refine succeeds_read (by omega) (by omega) fun b => ?_
  refine succeeds_read (by omega) (by omega) fun t => ?_
  refine succeeds_read h0 (by omega) fun r => ?_
  refine succeeds_read h0 (by omega) fun p => ?_
  exact succeeds_ok trivial

/-! ## With one level -/

/-- The first restriction goes to a second level. -/
theorem vCycle_ne_ok (hw : w.IsSized inst.numLevels) (hone : inst.numLevels < 2) (A : Matrix) (smooth : Module)
    (x b temp : Vector) (m m' : σ) : vCycle ops inst w A smooth x b temp m ≠ .ok m' := by
  refine bind_ne_ok_of_left fun m' => ?_
  refine bind_ne_ok fun temp => ?_
  refine read_bind_ne_ok ?_ m'
  rw [hw.bL]
  omega

variable [Field K] [LinearOrder K]

theorem mgSemiLoop_ne_ok (hw : w.IsSized inst.numLevels) (hone : inst.numLevels < 2) (A : Matrix) (smooth : Module)
    (x b temp : Vector) (tol eps : K) {rounds : ℕ} (hrounds : 1 ≤ rounds) (almostConverged : Bool) (m m' : σ) :
    mgSemiLoop ops inst w A smooth x b temp tol eps rounds almostConverged m ≠ .ok m' := by
  obtain ⟨rounds, rfl⟩ := Nat.exists_eq_add_of_le' hrounds
  unfold mgSemiLoop
  exact bind_ne_ok_of_left fun m' => vCycle_ne_ok hw hone A smooth x b temp _ m'

theorem mgSemi_succeeds_iff (ops : MGSemiOps K σ Module Matrix Vector Pkg CommPkg) (hinst : inst.IsSized)
    (xtra : MGSemiPublicXtra) (x b : Vector) (tol : K) (zero : Bool) (m : σ) :
    (Succeeds (mgSemi ops inst xtra x b tol zero m) fun _ => True) ↔ xtra.maxIter < 1 ∨ 2 ≤ inst.numLevels := by
  have hpos := hinst.pos
  have hA := hinst.aL
  have hsmooth := hinst.smoothL
  constructor
  · rintro ⟨m', hok, -⟩
    by_contra hneither
    obtain ⟨hiter, hone⟩ := not_or.mp hneither
    obtain ⟨⟨w, m₁⟩, halloc, hw⟩ := allocWork_succeeds ops hinst m
    revert hok
    unfold mgSemi
    refine bind_ne_ok fun A => ?_
    rw [halloc]
    show (if 0 + 1 > xtra.maxIter then _ else _) ≠ _
    rw [if_neg (by omega)]
    refine bind_ne_ok fun smooth => bind_ne_ok fun temp => bind_ne_ok_of_left fun m' => ?_
    exact mgSemiLoop_ne_ok hw (not_le.mp hone) A smooth x b temp tol _ (by omega) false _ m'
  · intro hsafe
    refine succeeds_read le_rfl (by omega) fun A => ?_
    refine (allocWork_succeeds ops hinst m).bind ?_
    rintro ⟨w, m⟩ hw
    have htemp := hw.tempVecL
    dsimp only at htemp ⊢
    by_cases hiter : 0 + 1 > xtra.maxIter
    · rw [if_pos hiter]
      exact succeeds_ok trivial
    · have htwo : 2 ≤ inst.numLevels := hsafe.resolve_left (by omega)
      rw [if_neg hiter]
      refine succeeds_read le_rfl (by omega) fun smooth => ?_
      refine succeeds_read le_rfl (by omega) fun temp => ?_
      refine (mgSemiLoop_succeeds hinst hw htwo A smooth x b temp tol _ _ _ _).bind fun m _ => ?_
      refine succeeds_foldlM (fun l hl m _ => ?_) trivial
      rw [mem_upto] at hl
      exact freeLevel_succeeds hw hl.1 hl.2 m

end

/-- Every index that `MGSemi` uses is in bounds exactly when it makes no V-cycle or there are two levels: at least
two are allowed, and some direction can be coarsened. -/
theorem mgSemi_inBounds_iff [Field K] [LinearOrder K] (ops : MGSemiOps K σ Module Matrix Vector Pkg CommPkg)
    (xtra : MGSemiPublicXtra) (s : Spacing K) (myProc : ℤ) (subgrids : SubgridArray) (A : Matrix) :
    ∃ inst, mgSemiInitInstanceXtra ops xtra s myProc (gridOn subgrids myProc) A = some inst ∧
      ∀ (x b : Vector) (tol : K) (zero : Bool) (m : σ), (∃ m', mgSemi ops inst xtra x b tol zero m = .ok m') ↔
        xtra.maxIter < 1 ∨ 2 ≤ xtra.maxLevels ∧ CanCoarsen xtra s := by
  obtain ⟨inst, hinit, hsized, htwo⟩ := mgSemiInitInstanceXtra_sized ops xtra s myProc subgrids A
  refine ⟨inst, hinit, fun x b tol zero m => ?_⟩
  rw [← htwo, ← mgSemi_succeeds_iff ops hsized xtra x b tol zero m]
  exact exists_congr fun m' => (and_iff_left trivial).symm

/-! ## A single cell -/

/-- Pointers to nothing. -/
def noOps : MGSemiOps ℚ Unit Unit Unit Unit Unit Unit where
  garbage := ((), (), ())
  newSmooth := fun _ => ()
  newMatrix := fun _ => ()
  newTransfer := fun _ _ _ => ()
  newRestrictComputePkg := fun _ _ => ()
  newProlongComputePkg := fun _ _ => ()
  newVector := fun _ _ => ((), ())
  newVectorCommPkg := fun _ _ _ => ((), ())
  copy := fun _ _ _ => ()
  matvec := fun _ _ _ _ => ()
  innerProd := fun _ _ _ => 1
  axpy := fun _ _ _ => ()
  smooth := fun _ _ _ _ _ => ()
  solve := fun _ _ _ => ()
  restrict := fun _ _ _ _ _ _ _ _ _ => ()
  prolong := fun _ _ _ _ _ _ _ _ _ => ()
  freeVector := fun _ _ => ()
  freeCommPkg := fun _ _ => ()

def oneCell : Spacing ℚ := ⟨fun _ => 1, fun _ => 1⟩

/-- A grid of one cell has one level. -/
theorem oneCell_outOfBounds : ¬ ∀ (xtra : MGSemiPublicXtra) (s : Spacing ℚ) (subgrids : SubgridArray),
    1 ≤ xtra.maxLevels → (∀ a, 0 < s.d a) → (∀ a, 0 < s.n a) →
    ∃ inst, mgSemiInitInstanceXtra noOps xtra s 0 (gridOn subgrids 0) () = some inst ∧
      ∃ m', mgSemi noOps inst xtra () () 1 true () = .ok m' := by
  intro h
  obtain ⟨inst, hinit, hok⟩ := h ⟨1, 100, fun _ => 1⟩ oneCell [newSubgrid 0 0 0 1 1 1 0 0 0 0] (by decide)
    (fun a => by simp [oneCell]) (fun a => by simp [oneCell])
  obtain ⟨inst', hinit', hsized, htwo⟩ := mgSemiInitInstanceXtra_sized noOps ⟨1, 100, fun _ => 1⟩ oneCell 0
    [newSubgrid 0 0 0 1 1 1 0 0 0 0] ()
  obtain rfl := Option.some.inj (hinit.symm.trans hinit')
  obtain ⟨m', hm'⟩ := hok
  rcases (mgSemi_succeeds_iff noOps hsized ⟨1, 100, fun _ => 1⟩ () () 1 true ()).mp ⟨m', hm', trivial⟩ with hiter | hlevels
  · exact absurd hiter (by decide)
  · obtain ⟨-, a, hcells, -⟩ := htwo.mp hlevels
    exact absurd hcells (by simp [oneCell])

end ParFlow
