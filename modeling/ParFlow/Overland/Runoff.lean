import ParFlow.Overland.OutflowScan
import ParFlow.Overland.FluxDefs

/-! When `ComputeSurfaceRunoff` adds up the outflow of a column through its faces: the second sweep overwrites what the first
has left there. -/

namespace ParFlow

open IntLoop FuelRun
open ParFlow.Topo
open ParFlow.Pfb (Databox)

/-! ## One line -/

section

variable {σ : Type} (t : ℤ → ℤ) (n : ℤ)

/-- The column at `j` is the first of a run. -/
def Begins (j : ℤ) : Prop := 0 ≤ t j ∧ (j = 0 ∨ t (j - 1) < 0)

instance (j : ℤ) : Decidable (Begins t j) := inferInstanceAs (Decidable (_ ∧ _))

def Ends (j : ℤ) : Prop := 0 ≤ t j ∧ (j + 1 = n ∨ t (j + 1) < 0)

instance (j : ℤ) : Decidable (Ends t n j) := inferInstanceAs (Decidable (_ ∧ _))

def runStep (low high : ℤ → ℤ → σ → σ) (s : σ) (j : ℤ) : σ :=
  let s := if Begins t j then low j (t j) s else s
  if Ends t n j then high j (t j) s else s

end

section

variable {σ : Type} {t : ℤ → ℤ} {n j : ℤ} {low high : ℤ → ℤ → σ → σ} {s : σ}

theorem runEnd_ok (hj : j < n) : ∃ j', Returns (fun fuel => runEnd t n fuel j) j' ∧ j ≤ j' ∧ j' < n ∧
    (∀ c, j ≤ c → c < j' → 0 ≤ t (c + 1)) ∧ (j' + 1 = n ∨ t (j' + 1) < 0) := by
  have hrun : ∀ fuel j, runEnd t n (fuel + 1) j =
      if (j + 1 < n ∧ ¬ t (j + 1) < 0) ∧ j ≤ n then runEnd t n fuel (j + 1) else .ok j := fun fuel j =>
    if_congr ⟨fun h => ⟨h, by omega⟩, fun h => h.1⟩ rfl rfl
  obtain ⟨j', hok, hle, hgo, hstop⟩ := skip_ok (j := j) hrun ((n + 1 - j).toNat + 1) (by omega)
  have hlast : j' < n := by
    rcases hle.eq_or_lt with rfl | hlt
    · exact hj
    · have h := (hgo (j' - 1) (by omega) (by omega)).1
      omega
  refine ⟨j', ⟨_, fun fuel hfuel => hok fuel hfuel⟩, hle, hlast, fun c h1 h2 => not_lt.mp (hgo c h1 h2).2, ?_⟩
  by_contra hnot
  obtain ⟨hn, ht⟩ := not_or.mp hnot
  exact hstop hlast ⟨by omega, ht⟩

theorem runStep_eq_self (hbegins : ¬ Begins t j) (hends : ¬ Ends t n j) : runStep t n low high s j = s := by
  unfold runStep
  rw [if_neg hbegins, if_neg hends]

/-- The columns of a run: its first one, those between, and its last one. -/
theorem foldl_run (h0 : 0 ≤ j) (hbegins : Begins t j) {j' : ℤ} (hle : j ≤ j') (hlast : j' < n)
    (hrun : ∀ c, j ≤ c → c < j' → 0 ≤ t (c + 1)) (hend : j' + 1 = n ∨ t (j' + 1) < 0) :
    (upto j (j' + 1)).foldl (runStep t n low high) s = high j' (t j') (low j (t j) s) := by
  have hactive : ∀ c, j ≤ c → c ≤ j' → 0 ≤ t c := fun c h1 h2 => by
    rcases h1.eq_or_lt with rfl | h
    · exact hbegins.1
    · simpa using hrun (c - 1) (by omega) (by omega)
  have hends : Ends t n j' := ⟨hactive j' hle le_rfl, hend⟩
  rcases hle.eq_or_lt with rfl | hlt
  · rw [upto_cons (by omega), upto_eq_nil le_rfl, List.foldl_cons, List.foldl_nil, runStep, if_pos hbegins, if_pos hends]
  have hfirst : ¬ Ends t n j := fun h => h.2.elim (fun h => by omega) fun h => absurd (hrun j le_rfl hlt) (not_le.mpr h)
  have hinner : ∀ c, j < c → c ≤ j' → ¬ Begins t c := fun c h1 h2 h => h.2.elim (fun h => by omega) fun h =>
    absurd (hactive (c - 1) (by omega) (by omega)) (not_le.mpr h)
  have hmiddle : ∀ l : List ℤ, (∀ c ∈ l, j < c ∧ c < j') → ∀ s, l.foldl (runStep t n low high) s = s := by
    intro l hl
    induction l with
    | nil => exact fun s => rfl
    | cons c l ih =>
      intro s
      obtain ⟨h1, h2⟩ := hl c List.mem_cons_self
      have hnot : ¬ Ends t n c := fun h => h.2.elim (fun h => by omega) fun h =>
        absurd (hrun c h1.le h2) (not_le.mpr h)
      rw [List.foldl_cons, runStep_eq_self (hinner c h1 h2.le) hnot]
      exact ih (fun d hd => hl d (List.mem_cons_of_mem _ hd)) s
  have hbetween : ∀ c ∈ upto (j + 1) j', j < c ∧ c < j' := fun c hc => by
    rw [mem_upto] at hc
    omega
  rw [← upto_append hle (show j' ≤ j' + 1 by omega), List.foldl_append, upto_cons hlt, List.foldl_cons, hmiddle _ hbetween,
    upto_cons (show j' < j' + 1 by omega), upto_eq_nil le_rfl, List.foldl_cons, List.foldl_nil]
  unfold runStep
  rw [if_pos hbegins, if_neg hfirst, if_neg (hinner j' hlt le_rfl), if_pos hends]

/-- The scan of the rest of a line; at its start the column before is inactive, or the scan has just left a run. -/
theorem runLine_rest (low high : ℤ → ℤ → σ → σ) (m : ℕ) (hm : n - j ≤ m) (h0 : 0 ≤ j) (hj : j < n → 0 ≤ t j → Begins t j) (s : σ) :
    Returns (fun fuel => runLine t n low high fuel j s) ((upto j n).foldl (runStep t n low high) s) := by
  have hdone : ∀ {j s}, n ≤ j →
      Returns (fun fuel => runLine t n low high fuel j s) ((upto j n).foldl (runStep t n low high) s) := by
    intro j s hn
    rw [upto_eq_nil hn]
    exact returns_of_add 1 fun fuel => if_neg (not_lt.mpr hn)
  induction m generalizing j s with
  | zero => exact hdone (by omega)
  | succ m ih =>
    rcases le_or_gt n j with hn | hn
    · exact hdone hn
    rcases lt_or_ge (t j) 0 with hk | hk
    · -- an inactive column
      have hskip : runStep t n low high s j = s :=
        runStep_eq_self (fun h => absurd hk (not_lt.mpr h.1)) fun h => absurd hk (not_lt.mpr h.1)
      rw [upto_cons hn, List.foldl_cons, hskip]
      refine returns_of_succ (ih (by omega) (by omega) (fun _ h => ⟨h, Or.inr (by rwa [add_sub_cancel_right])⟩) s) fun fuel => ?_
      show (if j < n then _ else _) = _
      rw [if_pos hn, if_neg (not_not.mpr hk)]
    · -- a run
      have hbegins := hj hn hk
      obtain ⟨j', hok, hle, hlast, hrun, hend⟩ := runEnd_ok (t := t) hn
      rw [← upto_append (b := j' + 1) (by omega) hlast, List.foldl_append, foldl_run h0 hbegins hle hlast hrun hend]
      have hrest := ih (j := j' + 1) (by omega) (by omega)
        (fun h h' => hend.elim (fun he => by omega) fun he => absurd h' (not_le.mpr he)) (high j' (t j') (low j (t j) s))
      refine returns_of_succ ((returns_bind_iff
        (g := fun fuel j' => runLine t n low high fuel (j' + 1) (high j' (t j') (low j (t j) s))) hok).mpr hrest) fun fuel => ?_
      show (if j < n then _ else _) = _
      rw [if_pos hn, if_pos (not_lt.mpr hk)]

theorem runLine_returns (t : ℤ → ℤ) (n : ℤ) (low high : ℤ → ℤ → σ → σ) (s : σ) :
    Returns (fun fuel => runLine t n low high fuel 0 s) ((upto 0 n).foldl (runStep t n low high) s) :=
  runLine_rest low high (n - 0).toNat (by omega) le_rfl (fun _ h => ⟨h, Or.inl rfl⟩) s

end

variable {K : Type} [Field K] [LinearOrder K]

/-! ## The faces of a column -/

section

variable (t : ℤ → ℤ) (n j : ℤ) (slope amount : K)

/-- The slope runs off through the lower or the higher face of the column at `j`, towards an inactive column or off the
grid. -/
def RunsOff : Prop := (j = 0 ∨ t (j - 1) < 0) ∧ 0 < slope ∨ (j + 1 = n ∨ t (j + 1) < 0) ∧ slope < 0

instance : Decidable (RunsOff t n j slope) := inferInstanceAs (Decidable (_ ∨ _))

/-- The sum over these two faces. -/
def lineRunoff : K :=
  (if (j = 0 ∨ t (j - 1) < 0) ∧ 0 < slope then amount else 0) +
    if (j + 1 = n ∨ t (j + 1) < 0) ∧ slope < 0 then amount else 0

end

theorem lineRunoff_eq (t : ℤ → ℤ) (n j : ℤ) (slope amount : K) :
    lineRunoff t n j slope amount = if RunsOff t n j slope then amount else 0 := by
  unfold lineRunoff RunsOff
  rcases lt_trichotomy slope 0 with hneg | rfl | hpos
  · rw [if_neg fun h => lt_asymm h.2 hneg, zero_add]
    exact if_congr ⟨Or.inr, fun h => h.resolve_left fun h => lt_asymm h.2 hneg⟩ rfl rfl
  · simp
  · rw [if_neg (c := _ ∧ slope < 0) fun h => lt_asymm h.2 hpos, add_zero]
    exact if_congr ⟨Or.inl, fun h => h.resolve_right fun h => lt_asymm h.2 hpos⟩ rfl rfl

/-- A step of the scan, when both faces set the same coefficient. -/
theorem runStep_eq {t : ℤ → ℤ} {n : ℤ} {low high : ℤ → ℤ → Databox K → Databox K} {i j c : ℤ} {slope press amount : K}
    (hlow : ∀ v, low c (t c) v = if 0 < slope ∧ 0 < press then setCoeff v i j amount else v)
    (hhigh : ∀ v, high c (t c) v = if slope < 0 ∧ 0 < press then setCoeff v i j amount else v) (v : Databox K) :
    runStep t n low high v c =
      setCoeff v i j (if (0 ≤ t c ∧ 0 < press) ∧ RunsOff t n c slope then amount else coeffAt v i j) := by
  unfold runStep
  simp only [hlow, hhigh]
  unfold RunsOff Begins Ends
  rcases lt_trichotomy slope 0 with hneg | rfl | hpos
  · have hnot : ¬ 0 < slope := lt_asymm hneg
    simp only [hneg, hnot, false_and, and_false, true_and, and_true, if_false, ite_self, false_or]
    split_ifs <;> simp_all
  · simp
  · have hnot : ¬ slope < 0 := lt_asymm hpos
    simp only [hpos, hnot, false_and, and_false, true_and, and_true, if_false, ite_self, or_false]
    split_ifs <;> simp_all

namespace RunoffData

variable (P : RunoffData K)

def topPressure (c : ℤ × ℤ) : K := layerAt P.pressure c.1 c.2 (coeffAt P.top c.1 c.2)

def amountX (c : ℤ × ℤ) : K := P.runoff P.slopeX P.pressure.dy c.1 c.2 (coeffAt P.top c.1 c.2)

def amountY (c : ℤ × ℤ) : K := P.runoff P.slopeY P.pressure.dx c.1 c.2 (coeffAt P.top c.1 c.2)

def RunsOffX (c : ℤ × ℤ) : Prop := RunsOff (fun i => coeffAt P.top i c.2) P.pressure.nx c.1 (coeffAt P.slopeX c.1 c.2)

instance (c : ℤ × ℤ) : Decidable (P.RunsOffX c) := inferInstanceAs (Decidable (RunsOff ..))

def RunsOffY (c : ℤ × ℤ) : Prop := RunsOff (fun j => coeffAt P.top c.1 j) P.pressure.ny c.2 (coeffAt P.slopeY c.1 c.2)

instance (c : ℤ × ℤ) : Decidable (P.RunsOffY c) := inferInstanceAs (Decidable (RunsOff ..))

/-- The outflow of a column through its four faces. -/
def outflow (c : ℤ × ℤ) : K :=
  if 0 < P.topPressure c then
    lineRunoff (fun i => coeffAt P.top i c.2) P.pressure.nx c.1 (coeffAt P.slopeX c.1 c.2) (P.amountX c) +
      lineRunoff (fun j => coeffAt P.top c.1 j) P.pressure.ny c.2 (coeffAt P.slopeY c.1 c.2) (P.amountY c)
  else 0

/-- The routine returns, and leaves the outflow in the active columns and zero in the others. -/
def AddsUp (surfaceRunoff : Databox K) : Prop :=
  ∃ surfaceRunoff', Returns (P.computeSurfaceRunoff surfaceRunoff) surfaceRunoff' ∧ ∀ c, IsCell P.pressure c →
    coeffAt surfaceRunoff' c.1 c.2 = if 0 ≤ coeffAt P.top c.1 c.2 then P.outflow c else 0

/-! ## The sweeps -/

variable {P} {surfaceRunoff : Databox K} {c : ℤ × ℤ}

theorem lowFace_eq (slope : Databox K) (width : K) (i j k : ℤ) (v : Databox K) : P.lowFace slope width i j k v =
    if 0 < coeffAt slope i j ∧ 0 < layerAt P.pressure i j k then setCoeff v i j (P.runoff slope width i j k) else v := by
  unfold lowFace
  rw [← ite_and]

theorem highFace_eq (slope : Databox K) (width : K) (i j k : ℤ) (v : Databox K) : P.highFace slope width i j k v =
    if coeffAt slope i j < 0 ∧ 0 < layerAt P.pressure i j k then setCoeff v i j (P.runoff slope width i j k) else v := by
  unfold highFace
  rw [← ite_and]

variable (P)

/-- What the first sweep leaves in a column that held `v`. -/
def leftY (c : ℤ × ℤ) (v : K) : K :=
  if (0 ≤ coeffAt P.top c.1 c.2 ∧ 0 < P.topPressure c) ∧ P.RunsOffY c then P.amountY c else v

def leftX (c : ℤ × ℤ) (v : K) : K :=
  if (0 ≤ coeffAt P.top c.1 c.2 ∧ 0 < P.topPressure c) ∧ P.RunsOffX c then P.amountX c else v

variable {P}

theorem sweepY_returns (i : ℤ) (v : Databox K) : Returns (fun fuel => P.sweepY fuel v i)
    ((upto 0 P.pressure.ny).foldl (fun v j => setCoeff v i j (P.leftY (i, j) (coeffAt v i j))) v) := by
  have hreturns := runLine_returns (fun j => coeffAt P.top i j) P.pressure.ny (P.lowFace P.slopeY P.pressure.dx i)
    (P.highFace P.slopeY P.pressure.dx i) v
  have hstep : runStep (fun j => coeffAt P.top i j) P.pressure.ny (P.lowFace P.slopeY P.pressure.dx i)
      (P.highFace P.slopeY P.pressure.dx i) = fun v j => setCoeff v i j (P.leftY (i, j) (coeffAt v i j)) :=
    funext fun v => funext fun j => runStep_eq (lowFace_eq P.slopeY P.pressure.dx i j _)
      (highFace_eq P.slopeY P.pressure.dx i j _) v
  rwa [hstep] at hreturns

theorem sweepX_returns (j : ℤ) (v : Databox K) : Returns (fun fuel => P.sweepX fuel v j)
    ((upto 0 P.pressure.nx).foldl (fun v i => setCoeff v i j (P.leftX (i, j) (coeffAt v i j))) v) := by
  have hreturns := runLine_returns (fun i => coeffAt P.top i j) P.pressure.nx
    (fun i k => P.lowFace P.slopeX P.pressure.dy i j k) (fun i k => P.highFace P.slopeX P.pressure.dy i j k) v
  have hstep : runStep (fun i => coeffAt P.top i j) P.pressure.nx (fun i k => P.lowFace P.slopeX P.pressure.dy i j k)
      (fun i k => P.highFace P.slopeX P.pressure.dy i j k) =
      fun v i => setCoeff v i j (P.leftX (i, j) (coeffAt v i j)) :=
    funext fun v => funext fun i => @runStep_eq _ _ _ _ _ (fun i k => P.lowFace P.slopeX P.pressure.dy i j k)
      (fun i k => P.highFace P.slopeX P.pressure.dy i j k) i j i _ _ _ (lowFace_eq P.slopeX P.pressure.dy i j _)
      (highFace_eq P.slopeX P.pressure.dy i j _) v
  rwa [hstep] at hreturns

theorem foldl_leftY_nx (l : List (ℤ × ℤ)) (v : Databox K) :
    (l.foldl (fun v c => setCoeff v c.1 c.2 (P.leftY c (coeffAt v c.1 c.2))) v).nx = v.nx := by
  induction l generalizing v with
  | nil => rfl
  | cons c l ih => exact ih _

/-- Every column has what the second sweep leaves of what the first has left. -/
theorem computeSurfaceRunoff_left (hnx : surfaceRunoff.nx = P.pressure.nx) :
    ∃ surfaceRunoff', Returns (P.computeSurfaceRunoff surfaceRunoff) surfaceRunoff' ∧ ∀ c, IsCell P.pressure c →
      coeffAt surfaceRunoff' c.1 c.2 = P.leftX c (P.leftY c (coeffAt surfaceRunoff c.1 c.2)) := by
  let stepY := fun (v : Databox K) (c : ℤ × ℤ) => setCoeff v c.1 c.2 (P.leftY c (coeffAt v c.1 c.2))
  let stepX := fun (v : Databox K) (c : ℤ × ℤ) => setCoeff v c.1 c.2 (P.leftX c (coeffAt v c.1 c.2))
  let linesY := (upto 0 P.pressure.nx).flatMap fun i => (upto 0 P.pressure.ny).map fun j => (i, j)
  have hY : Returns (fun fuel => (upto 0 P.pressure.nx).foldlM (P.sweepY fuel) surfaceRunoff)
      (linesY.foldl stepY surfaceRunoff) := by
    rw [List.foldl_flatMap]
    simp only [List.foldl_map]
    exact returns_foldlM (fun i _ v => sweepY_returns i v) surfaceRunoff
  have hX : ∀ v, Returns (fun fuel => (upto 0 P.pressure.ny).foldlM (P.sweepX fuel) v)
      ((gridLoop P.pressure.nx P.pressure.ny).foldl stepX v) := by
    intro v
    unfold gridLoop
    rw [List.foldl_flatMap]
    simp only [List.foldl_map]
    exact returns_foldlM (fun j _ v => sweepX_returns j v) v
  refine ⟨_, (returns_bind_iff hY).mpr (hX _), fun c hc => ?_⟩
  have hmemY : ∀ {d : ℤ × ℤ}, d ∈ linesY ↔ IsCell P.pressure d := by
    intro d
    simp only [linesY, List.mem_flatMap, List.mem_map, mem_upto]
    constructor
    · rintro ⟨i, hi, j, hj, rfl⟩
      exact ⟨hi, hj⟩
    · rintro ⟨hi, hj⟩
      exact ⟨d.1, hi, d.2, hj, rfl⟩
  have hnodupY : linesY.Nodup := List.Nodup.product (upto_nodup 0 P.pressure.nx) (upto_nodup 0 P.pressure.ny)
  have hnxY : (linesY.foldl stepY surfaceRunoff).nx = P.pressure.nx := by
    rw [foldl_leftY_nx, hnx]
  rw [coeffAt_foldl_update P.leftX (fun d hd => mem_gridLoop.mp hd) (gridLoop_nodup _ _) hnxY hc,
    if_pos (mem_gridLoop.mpr hc), coeffAt_foldl_update P.leftY (fun d hd => hmemY.mp hd) hnodupY hnx hc,
    if_pos (hmemY.mpr hc)]

/-! ## The outflow -/

/-- What is left is the outflow, less what the first sweep has set where the second sets a value again. -/
theorem leftX_leftY (hc : 0 ≤ coeffAt P.top c.1 c.2) : P.leftX c (P.leftY c 0) =
    P.outflow c - if 0 < P.topPressure c ∧ P.RunsOffX c ∧ P.RunsOffY c then P.amountY c else 0 := by
  unfold leftX leftY outflow
  rw [lineRunoff_eq, lineRunoff_eq]
  change _ = (if 0 < P.topPressure c then (if P.RunsOffX c then _ else 0) + (if P.RunsOffY c then _ else 0) else 0) - _
  by_cases hpress : 0 < P.topPressure c
  · by_cases hX : P.RunsOffX c <;> by_cases hY : P.RunsOffY c <;> simp [hc, hpress, hX, hY]
  · simp [hpress]

variable (P)

/-- No active column runs off along both axes, or what runs off it along y is nothing. -/
def NoCorners : Prop := ∀ c, IsCell P.pressure c → 0 ≤ coeffAt P.top c.1 c.2 → 0 < P.topPressure c →
  P.RunsOffX c → P.RunsOffY c → P.amountY c = 0

variable {P}

theorem addsUp_iff (hnx : surfaceRunoff.nx = P.pressure.nx)
    (hzero : ∀ c, IsCell P.pressure c → coeffAt surfaceRunoff c.1 c.2 = 0) : P.AddsUp surfaceRunoff ↔ P.NoCorners := by
  obtain ⟨surfaceRunoff', hreturns, hleft⟩ := computeSurfaceRunoff_left hnx
  constructor
  · rintro ⟨_, hreturns', hsum⟩ c hc hactive hpress hX hY
    obtain rfl := hreturns.unique hreturns'
    have heq := hsum c hc
    rw [hleft c hc, hzero c hc, leftX_leftY hactive, if_pos hactive, if_pos ⟨hpress, hX, hY⟩, sub_eq_self] at heq
    exact heq
  · refine fun hcorners => ⟨surfaceRunoff', hreturns, fun c hc => ?_⟩
    rw [hleft c hc, hzero c hc]
    by_cases hactive : 0 ≤ coeffAt P.top c.1 c.2
    · rw [leftX_leftY hactive, if_pos hactive, sub_eq_self]
      exact ite_eq_right_iff.mpr fun h => hcorners c hc hactive h.1 h.2.1 h.2.2
    · unfold leftX leftY
      rw [if_neg fun h => hactive h.1.1, if_neg fun h => hactive h.1.1, if_neg hactive]

/-! ## One column -/

/-- One active column that slopes down towards the lower corner of the grid, with all numbers one. -/
def oneColumn : RunoffData ℚ where
  powers := ⟨fun x => x, fun x => x⟩
  top := ⟨1, 1, 1, 0, 0, 0, 1, 1, 1, fun _ => 0⟩
  slopeX := ⟨1, 1, 1, 0, 0, 0, 1, 1, 1, fun _ => 1⟩
  slopeY := ⟨1, 1, 1, 0, 0, 0, 1, 1, 1, fun _ => 1⟩
  mannings := ⟨1, 1, 1, 0, 0, 0, 1, 1, 1, fun _ => 1⟩
  pressure := ⟨1, 1, 1, 0, 0, 0, 1, 1, 1, fun _ => 1⟩

def noRunoff : Databox ℚ := newDatabox 1 1 1 0 0 0 1 1 1

theorem oneColumn_iff : oneColumn.AddsUp noRunoff ↔ oneColumn.NoCorners := addsUp_iff rfl fun _ _ => rfl

/-- The routine leaves one, and the outflow through the two faces is two. -/
theorem oneColumn_not_addsUp : ¬ oneColumn.AddsUp noRunoff := by
  rintro ⟨surfaceRunoff', hreturns, hsum⟩
  obtain ⟨left, hreturns', hleft⟩ := computeSurfaceRunoff_left (P := oneColumn) (show noRunoff.nx = _ from rfl)
  obtain rfl := hreturns.unique hreturns'
  have hcell : IsCell oneColumn.pressure ((0, 0) : ℤ × ℤ) := by decide
  have heq := (hleft _ hcell).symm.trans (hsum _ hcell)
  have hne : oneColumn.leftX (0, 0) (oneColumn.leftY (0, 0) (coeffAt noRunoff 0 0)) ≠
      if 0 ≤ coeffAt oneColumn.top 0 0 then oneColumn.outflow (0, 0) else 0 := by decide +kernel
  exact hne heq

end RunoffData

end ParFlow
