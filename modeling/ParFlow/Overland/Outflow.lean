import ParFlow.Comm.VectorCells
import ParFlow.Overland.OutflowScan

/-! What `OverlandSum` adds to the columns of a subgrid, and when it counts every face of the active region once. -/

namespace ParFlow

open IntLoop FuelRun

variable {K : Type} [Field K]

/-! ## One line -/

section

variable (t : ℤ → ℤ) (lo : ℤ) (low high : ℤ → ℤ → K) (j : ℤ)

/-- What the scan of a line adds at `j`. -/
def lineAmount : K := (if Entered t lo j then low j (t j) else 0) + if Leaves t lo j then high j (t j) else 0

/-- The outflow through the two faces of the column at `j` that lie across the line. -/
def lineOutflow : K :=
  if t j < 0 then 0 else (if t (j - 1) < 0 then low j (t j) else 0) + if t (j + 1) < 0 then high j (t j) else 0

/-- The outflow of an active column that the scan misses: through its lower face when it has gone active two places
before, through its higher face when the run is this one column. -/
def lineLost : K :=
  (if t (j - 1) < 0 ∧ Entered t lo (j - 2) then low j (t j) else 0) +
    if t (j + 1) < 0 ∧ Entered t lo j then high j (t j) else 0

/-- What the scan adds to an inactive column, behind a run of one column. -/
def lineStray : K := if t (j + 1) < 0 ∧ Entered t lo (j - 1) then high j (t j) else 0

end

section

variable {t : ℤ → ℤ} {lo j : ℤ} {low high : ℤ → ℤ → K}

theorem lineAmount_active (hlo : lo ≤ j) (hj : 0 ≤ t j) :
    lineAmount t lo low high j + lineLost t lo low high j = lineOutflow t low high j := by
  have hlow : (if Entered t lo j then low j (t j) else 0) + (if t (j - 1) < 0 ∧ Entered t lo (j - 2) then low j (t j) else 0) =
      if t (j - 1) < 0 then low j (t j) else 0 := by
    by_cases hbefore : t (j - 1) < 0
    · by_cases htwo : Entered t lo (j - 2)
      · rw [if_neg fun h => (entered_iff.mp h).2.2 htwo, if_pos ⟨hbefore, htwo⟩, if_pos hbefore, zero_add]
      · rw [if_pos (entered_iff.mpr ⟨hlo, ⟨hbefore, hj⟩, htwo⟩), if_neg fun h => htwo h.2, if_pos hbefore, add_zero]
    · rw [if_neg fun h => hbefore h.before, if_neg fun h => hbefore h.1, if_neg hbefore, add_zero]
  have hhigh : (if Leaves t lo j then high j (t j) else 0) + (if t (j + 1) < 0 ∧ Entered t lo j then high j (t j) else 0) =
      if t (j + 1) < 0 then high j (t j) else 0 := by
    by_cases hafter : t (j + 1) < 0
    · by_cases hentered : Entered t lo j
      · have hleaves : ¬ Leaves t lo j := fun h => h.2.elim (fun h => h.2 hentered) fun h => absurd h.1 (not_lt.mpr hj)
        rw [if_neg hleaves, if_pos ⟨hafter, hentered⟩, if_pos hafter, zero_add]
      · rw [if_pos ⟨hafter, Or.inl ⟨hj, hentered⟩⟩, if_neg fun h => hentered h.2, if_pos hafter, add_zero]
    · rw [if_neg fun h => hafter h.1, if_neg fun h => hafter h.1, if_neg hafter, add_zero]
  -- each face is counted or lost
  unfold lineAmount lineLost lineOutflow
  rw [if_neg (not_lt.mpr hj), ← hlow, ← hhigh]
  ring

theorem lineAmount_inactive (hj : t j < 0) : lineAmount t lo low high j = lineStray t lo high j := by
  unfold lineAmount lineStray
  rw [if_neg (not_entered_of_inactive hj), zero_add]
  refine if_congr ⟨fun h => ⟨h.1, ?_⟩, fun h => ⟨h.1, Or.inr ⟨hj, h.2⟩⟩⟩ rfl rfl
  exact h.2.elim (fun h => absurd hj (not_lt.mpr h.1)) fun h => h.2

end

/-- The runs of active columns that begin in the line have two columns or more. -/
def WideRuns (t : ℤ → ℤ) (lo n : ℤ) : Prop := ∀ c, lo ≤ c → c < n → t (c - 1) < 0 → 0 ≤ t c → 0 ≤ t (c + 1)

section

variable {t : ℤ → ℤ} {lo n j : ℤ} {low high : ℤ → ℤ → K}

theorem WideRuns.active_next (hwide : WideRuns t lo n) (hj : j < n) (h : Entered t lo j) : 0 ≤ t (j + 1) :=
  hwide j h.1 hj h.before h.active

theorem WideRuns.lineLost_eq_zero (hwide : WideRuns t lo n) (hj : j < n) : lineLost t lo low high j = 0 := by
  have hlow : ¬ (t (j - 1) < 0 ∧ Entered t lo (j - 2)) := fun h => by
    have hnext := hwide.active_next (by omega) h.2
    rw [show j - 2 + 1 = j - 1 by ring] at hnext
    exact absurd h.1 (not_lt.mpr hnext)
  have hhigh : ¬ (t (j + 1) < 0 ∧ Entered t lo j) := fun h => absurd h.1 (not_lt.mpr (hwide.active_next hj h.2))
  unfold lineLost
  rw [if_neg hlow, if_neg hhigh, add_zero]

theorem WideRuns.lineStray_eq_zero (hwide : WideRuns t lo n) (hj : j < n) (hinactive : t j < 0) :
    lineStray t lo high j = 0 := by
  refine if_neg fun h => ?_
  have hnext := hwide.active_next (by omega) h.2
  rw [sub_add_cancel] at hnext
  exact absurd hinactive (not_lt.mpr hnext)

end

/-! ## Adding to columns -/

theorem addColumn_zero (v : Subvector K) (i j : ℤ) : addColumn v i j 0 = v := by
  simp only [addColumn, add_zero, Function.update_eq_self]

theorem addColumn_addColumn (v : Subvector K) (i j : ℤ) (a b : K) :
    addColumn (addColumn v i j a) i j b = addColumn v i j (a + b) := by
  simp only [addColumn, Function.update_self, Function.update_idem, add_assoc]

theorem addColumn_column {v : Subvector K} {i j i' j' : ℤ} (h : ((i, j, 0) : Cell) ∈ v.dataSpace.cells)
    (h' : ((i', j', 0) : Cell) ∈ v.dataSpace.cells) (a : K) :
    (addColumn v i j a).column i' j' = v.column i' j' + if (i, j) = (i', j') then a else 0 := by
  by_cases heq : (i, j) = (i', j')
  · obtain ⟨rfl, rfl⟩ := Prod.mk.inj heq
    rw [if_pos rfl]
    exact Function.update_self ..
  · rw [if_neg heq, add_zero]
    refine Function.update_of_ne (fun hindex => heq ?_) _ _
    have hcell := cellIndex_inj h' h hindex
    exact Prod.ext (congrArg (·.1) hcell).symm (congrArg (·.2.1) hcell).symm

def addColumns (amount : ℤ × ℤ → K) (l : List (ℤ × ℤ)) (v : Subvector K) : Subvector K :=
  l.foldl (fun v c => addColumn v c.1 c.2 (amount c)) v

theorem addColumns_dataSpace (amount : ℤ × ℤ → K) (l : List (ℤ × ℤ)) (v : Subvector K) :
    (addColumns amount l v).dataSpace = v.dataSpace := by
  unfold addColumns
  induction l generalizing v with
  | nil => rfl
  | cons c l ih => exact ih _

/-- Every column of the list gets its amount. -/
theorem addColumns_column (amount : ℤ × ℤ → K) {l : List (ℤ × ℤ)} (hl : l.Nodup) {i j : ℤ} {v : Subvector K}
    (hspace : ∀ c ∈ l, ((c.1, c.2, 0) : Cell) ∈ v.dataSpace.cells) (h : ((i, j, 0) : Cell) ∈ v.dataSpace.cells) :
    (addColumns amount l v).column i j = v.column i j + if (i, j) ∈ l then amount (i, j) else 0 := by
  unfold addColumns
  induction l generalizing v with
  | nil => rw [List.foldl_nil, if_neg List.not_mem_nil, add_zero]
  | cons c l ih =>
    obtain ⟨hc, hl⟩ := List.nodup_cons.mp hl
    rw [List.foldl_cons, ih hl (v := addColumn v c.1 c.2 (amount c)) (fun d hd => hspace d (List.mem_cons_of_mem _ hd)) h,
      addColumn_column (hspace c List.mem_cons_self) h]
    by_cases heq : (c.1, c.2) = (i, j)
    · obtain rfl : c = (i, j) := heq
      rw [if_pos rfl, if_neg hc, if_pos List.mem_cons_self, add_zero]
    · rw [if_neg heq, add_zero]
      refine congrArg _ (if_congr ?_ rfl rfl)
      rw [List.mem_cons, or_iff_right fun h => heq h.symm]

/-- A step of the scan, when both faces add to the same column. -/
theorem lineStep_eq {t : ℤ → ℤ} {lo : ℤ} {low high : ℤ → ℤ → Subvector K → Subvector K}
    (lowAmount highAmount : ℤ → ℤ → K) {i j c : ℤ} (hlow : ∀ k v, low c k v = addColumn v i j (lowAmount c k))
    (hhigh : ∀ k v, high c k v = addColumn v i j (highAmount c k)) (v : Subvector K) :
    lineStep t lo low high v c = addColumn v i j (lineAmount t lo lowAmount highAmount c) := by
  have hite : ∀ (p : Prop) [Decidable p] (a : K) (v : Subvector K),
      (if p then addColumn v i j a else v) = addColumn v i j (if p then a else 0) := fun p _ a v => by
    by_cases hp : p
    · rw [if_pos hp, if_pos hp]
    · rw [if_neg hp, if_neg hp, addColumn_zero]
  unfold lineStep lineAmount
  simp only [hlow, hhigh, hite]
  exact addColumn_addColumn v i j _ _

variable [LinearOrder K]

namespace OutflowData

variable (P : OutflowData K)

/-! ## The specification -/

/-- The outflow through the lower face of a column. -/
def lowAmount (slope : Subvector K) (width : K) (i j k : ℤ) : K :=
  if 0 < slope.column i j ∧ 0 < P.pressureAt i j k then P.runoff (slope.column i j) width i j k else 0

def highAmount (slope : Subvector K) (width : K) (i j k : ℤ) : K :=
  if slope.column i j < 0 ∧ 0 < P.pressureAt i j k then P.runoff (slope.column i j) width i j k else 0

/-- The outflow of a column through its faces that border on inactive columns. -/
def outflow (i j : ℤ) : K :=
  lineOutflow (P.top.column i) (P.lowAmount P.slopeY P.dx i) (P.highAmount P.slopeY P.dx i) j +
    lineOutflow (fun i => P.top.column i j) (fun i => P.lowAmount P.slopeX P.dy i j) (fun i => P.highAmount P.slopeX P.dy i j) i

end OutflowData

def Subregion.OwnsColumn (subgrid : Subgrid) (i j : ℤ) : Prop :=
  (subgrid.ix ≤ i ∧ i < subgrid.ix + subgrid.nx) ∧ subgrid.iy ≤ j ∧ j < subgrid.iy + subgrid.ny

instance (subgrid : Subgrid) (i j : ℤ) : Decidable (subgrid.OwnsColumn i j) := inferInstanceAs (Decidable (_ ∧ _))

/-- Room for the columns of a subgrid and those around them. -/
def Subregion.GhostColumns (ds subgrid : Subgrid) : Prop := ∀ i j : ℤ,
  (subgrid.ix - 1 ≤ i ∧ i < subgrid.ix + subgrid.nx + 1) ∧ subgrid.iy - 1 ≤ j ∧ j < subgrid.iy + subgrid.ny + 1 →
    ((i, j, 0) : Cell) ∈ ds.cells

namespace OutflowData

variable (P : OutflowData K)

/-- The routine returns, and adds to every column of the subgrid its outflow. -/
def SumsOutflow (bcTypes : List ℤ) (subgrid : Subgrid) (overlandSum : Subvector K) : Prop :=
  ∃ overlandSum', Returns (P.overlandSum bcTypes subgrid overlandSum) overlandSum' ∧
    ∀ i j, subgrid.OwnsColumn i j → overlandSum'.column i j = overlandSum.column i j + P.outflow i j

/-- What the two scans miss of the outflow of a column. -/
def lostOutflow (subgrid : Subgrid) (i j : ℤ) : K :=
  lineLost (P.top.column i) subgrid.iy (P.lowAmount P.slopeY P.dx i) (P.highAmount P.slopeY P.dx i) j +
    lineLost (fun i => P.top.column i j) subgrid.ix (fun i => P.lowAmount P.slopeX P.dy i j)
      (fun i => P.highAmount P.slopeX P.dy i j) i

/-- What the two scans add to an inactive column. -/
def strayOutflow (subgrid : Subgrid) (i j : ℤ) : K :=
  lineStray (P.top.column i) subgrid.iy (P.highAmount P.slopeY P.dx i) j +
    lineStray (fun i => P.top.column i j) subgrid.ix (fun i => P.highAmount P.slopeX P.dy i j) i

/-! ## The routine -/

variable {P} {subgrid : Subgrid} {i j : ℤ}

theorem lowFace_eq (slope : Subvector K) (width : K) (i j k : ℤ) (v : Subvector K) :
    P.lowFace slope width i j k v = addColumn v i j (P.lowAmount slope width i j k) := by
  unfold lowFace lowAmount
  split_ifs with hslope hpressure hboth hboth hboth
  · rfl
  · exact absurd ⟨hslope, hpressure⟩ hboth
  · exact absurd hboth.2 hpressure
  · exact (addColumn_zero v i j).symm
  · exact absurd hboth.1 hslope
  · exact (addColumn_zero v i j).symm

theorem highFace_eq (slope : Subvector K) (width : K) (i j k : ℤ) (v : Subvector K) :
    P.highFace slope width i j k v = addColumn v i j (P.highAmount slope width i j k) := by
  unfold highFace highAmount
  split_ifs with hslope hpressure hboth hboth hboth
  · rfl
  · exact absurd ⟨hslope, hpressure⟩ hboth
  · exact absurd hboth.2 hpressure
  · exact (addColumn_zero v i j).symm
  · exact absurd hboth.1 hslope
  · exact (addColumn_zero v i j).symm

variable (P)

/-- The columns in the order of the two scans, with what is added to each. -/
def linesY (subgrid : Subgrid) : List (ℤ × ℤ) :=
  upto subgrid.ix (subgrid.ix + subgrid.nx) ×ˢ upto (subgrid.iy - 1) (subgrid.iy + subgrid.ny)

def linesX (subgrid : Subgrid) : List (ℤ × ℤ) :=
  (upto subgrid.iy (subgrid.iy + subgrid.ny) ×ˢ upto (subgrid.ix - 1) (subgrid.ix + subgrid.nx)).map Prod.swap

def amountY (subgrid : Subgrid) (c : ℤ × ℤ) : K :=
  lineAmount (P.top.column c.1) subgrid.iy (P.lowAmount P.slopeY P.dx c.1) (P.highAmount P.slopeY P.dx c.1) c.2

def amountX (subgrid : Subgrid) (c : ℤ × ℤ) : K :=
  lineAmount (fun i => P.top.column i c.2) subgrid.ix (fun i => P.lowAmount P.slopeX P.dy i c.2)
    (fun i => P.highAmount P.slopeX P.dy i c.2) c.1

variable {P}

theorem scanY_returns (i : ℤ) (v : Subvector K) : Returns (fun fuel => P.scanY subgrid fuel v i)
    ((upto (subgrid.iy - 1) (subgrid.iy + subgrid.ny)).foldl (fun v j => addColumn v i j (P.amountY subgrid (i, j))) v) := by
  have hreturns := scanLine_returns (P.top.column i) subgrid.iy (subgrid.iy + subgrid.ny) (P.lowFace P.slopeY P.dx i)
    (P.highFace P.slopeY P.dx i) v
  have hstep : lineStep (P.top.column i) subgrid.iy (P.lowFace P.slopeY P.dx i) (P.highFace P.slopeY P.dx i) =
      fun v j => addColumn v i j (P.amountY subgrid (i, j)) := funext fun v => funext fun j =>
    lineStep_eq (P.lowAmount P.slopeY P.dx i) (P.highAmount P.slopeY P.dx i) (lowFace_eq P.slopeY P.dx i j)
      (highFace_eq P.slopeY P.dx i j) v
  rwa [hstep] at hreturns

theorem scanX_returns (j : ℤ) (v : Subvector K) : Returns (fun fuel => P.scanX subgrid fuel v j)
    ((upto (subgrid.ix - 1) (subgrid.ix + subgrid.nx)).foldl (fun v i => addColumn v i j (P.amountX subgrid (i, j))) v) := by
  have hreturns := scanLine_returns (fun i => P.top.column i j) subgrid.ix (subgrid.ix + subgrid.nx)
    (fun i k => P.lowFace P.slopeX P.dy i j k) (fun i k => P.highFace P.slopeX P.dy i j k) v
  have hstep : lineStep (fun i => P.top.column i j) subgrid.ix (fun i k => P.lowFace P.slopeX P.dy i j k)
      (fun i k => P.highFace P.slopeX P.dy i j k) =
      fun v i => addColumn v i j (P.amountX subgrid (i, j)) := funext fun v => funext fun i =>
    lineStep_eq (fun i => P.lowAmount P.slopeX P.dy i j) (fun i => P.highAmount P.slopeX P.dy i j)
      (lowFace_eq P.slopeX P.dy i j) (highFace_eq P.slopeX P.dy i j) v
  rwa [hstep] at hreturns

/-- A loop in a loop. -/
theorem foldl_product {α β γ : Type} (f : γ → α × β → γ) (l : List α) (l' : List β) (v : γ) :
    (l ×ˢ l').foldl f v = l.foldl (fun v a => l'.foldl (fun v b => f v (a, b)) v) v := by
  rw [show l ×ˢ l' = l.flatMap fun a => l'.map (Prod.mk a) from rfl, List.foldl_flatMap]
  simp only [List.foldl_map]

theorem foldl_patches {γ : Type} (f : γ → γ) (bcTypes : List ℤ) (v : γ) :
    bcTypes.foldl (fun v type => if type = 7 then f v else v) v = f^[bcTypes.count 7] v := by
  induction bcTypes generalizing v with
  | nil => rfl
  | cons type bcTypes ih =>
    rw [List.foldl_cons, ih, List.count_cons]
    by_cases htype : type = 7
    · rw [if_pos htype, if_pos (beq_iff_eq.mpr htype)]
      rfl
    · rw [if_neg htype, if_neg fun h => htype (beq_iff_eq.mp h), add_zero]

theorem overlandSumSubgrid_returns (v : Subvector K) : Returns (fun fuel => P.overlandSumSubgrid subgrid fuel v)
    (addColumns (P.amountX subgrid) (linesX subgrid) (addColumns (P.amountY subgrid) (linesY subgrid) v)) := by
  have hY := returns_foldlM (l := upto subgrid.ix (subgrid.ix + subgrid.nx)) (g := P.scanY subgrid)
    (fun i _ v => scanY_returns i v) v
  rw [addColumns, addColumns, linesX, linesY, List.foldl_map, foldl_product, foldl_product]
  refine (returns_bind_iff hY).mpr ?_
  exact returns_foldlM (l := upto subgrid.iy (subgrid.iy + subgrid.ny)) (g := P.scanX subgrid) (fun j _ v => scanX_returns j v) _

/-- With one overland patch the subgrid is scanned once. -/
theorem overlandSum_returns {bcTypes : List ℤ} (hone : bcTypes.count 7 = 1) (v : Subvector K) :
    Returns (P.overlandSum bcTypes subgrid v)
      (addColumns (P.amountX subgrid) (linesX subgrid) (addColumns (P.amountY subgrid) (linesY subgrid) v)) := by
  have h := returns_foldlM (l := bcTypes)
    (g := fun fuel v type => if type = 7 then P.overlandSumSubgrid subgrid fuel v else .ok v)
    (G := fun v type => if type = 7 then
      addColumns (P.amountX subgrid) (linesX subgrid) (addColumns (P.amountY subgrid) (linesY subgrid) v) else v)
    (fun type _ v => ?_) v
  · rw [foldl_patches fun v => addColumns (P.amountX subgrid) (linesX subgrid) (addColumns (P.amountY subgrid) (linesY subgrid) v),
      hone] at h
    exact h
  · split_ifs
    · exact overlandSumSubgrid_returns v
    · exact returns_const v

/-! ## Every face once -/

theorem mem_linesY {c : ℤ × ℤ} : c ∈ linesY subgrid ↔
    (subgrid.ix ≤ c.1 ∧ c.1 < subgrid.ix + subgrid.nx) ∧ subgrid.iy - 1 ≤ c.2 ∧ c.2 < subgrid.iy + subgrid.ny := by
  obtain ⟨i, j⟩ := c
  rw [← mem_upto, ← mem_upto]
  exact List.pair_mem_product

theorem mem_linesX {c : ℤ × ℤ} : c ∈ linesX subgrid ↔
    (subgrid.ix - 1 ≤ c.1 ∧ c.1 < subgrid.ix + subgrid.nx) ∧ subgrid.iy ≤ c.2 ∧ c.2 < subgrid.iy + subgrid.ny := by
  obtain ⟨i, j⟩ := c
  rw [linesX, List.mem_map_swap, ← mem_upto, ← mem_upto, and_comm]
  exact List.pair_mem_product

theorem nodup_linesY : (linesY subgrid).Nodup := (upto_nodup _ _).product (upto_nodup _ _)

theorem nodup_linesX : (linesX subgrid).Nodup := ((upto_nodup _ _).product (upto_nodup _ _)).map Prod.swap_injective

/-- What the routine adds to a column of the subgrid. -/
theorem added_column {v : Subvector K} (hspace : v.dataSpace.GhostColumns subgrid) (howned : subgrid.OwnsColumn i j) :
    (addColumns (P.amountX subgrid) (linesX subgrid) (addColumns (P.amountY subgrid) (linesY subgrid) v)).column i j =
      v.column i j + (P.amountY subgrid (i, j) + P.amountX subgrid (i, j)) := by
  obtain ⟨hi, hj⟩ := howned
  have hcell : ((i, j, 0) : Cell) ∈ v.dataSpace.cells := hspace i j ⟨by omega, by omega⟩
  have hcellsX : ∀ c ∈ linesX subgrid,
      ((c.1, c.2, 0) : Cell) ∈ (addColumns (P.amountY subgrid) (linesY subgrid) v).dataSpace.cells := fun c hc => by
    have hc' := mem_linesX.mp hc
    rw [addColumns_dataSpace]
    exact hspace c.1 c.2 ⟨by omega, by omega⟩
  have hcellsY : ∀ c ∈ linesY subgrid, ((c.1, c.2, 0) : Cell) ∈ v.dataSpace.cells := fun c hc => by
    have hc' := mem_linesY.mp hc
    exact hspace c.1 c.2 ⟨by omega, by omega⟩
  rw [addColumns_column _ nodup_linesX hcellsX (by rwa [addColumns_dataSpace]), addColumns_column _ nodup_linesY hcellsY hcell,
    if_pos (mem_linesX.mpr ⟨by omega, hj⟩), if_pos (mem_linesY.mpr ⟨hi, by omega⟩), add_assoc]

theorem added_active (hactive : 0 ≤ P.top.column i j) (howned : subgrid.OwnsColumn i j) :
    P.amountY subgrid (i, j) + P.amountX subgrid (i, j) + P.lostOutflow subgrid i j = P.outflow i j := by
  unfold amountY amountX lostOutflow outflow
  rw [← lineAmount_active howned.2.1 hactive,
    ← lineAmount_active (t := fun i => P.top.column i j) howned.1.1 hactive]
  ring

theorem added_inactive (hinactive : P.top.column i j < 0) :
    P.amountY subgrid (i, j) + P.amountX subgrid (i, j) = P.strayOutflow subgrid i j := by
  unfold amountY amountX strayOutflow
  rw [lineAmount_inactive hinactive, lineAmount_inactive (t := fun i => P.top.column i j) hinactive]

theorem outflow_inactive (hinactive : P.top.column i j < 0) : P.outflow i j = 0 := by
  unfold outflow lineOutflow
  rw [if_pos hinactive, if_pos hinactive, add_zero]

theorem sumsOutflow_iff_added {bcTypes : List ℤ} {v : Subvector K} (hone : bcTypes.count 7 = 1)
    (hspace : v.dataSpace.GhostColumns subgrid) : P.SumsOutflow bcTypes subgrid v ↔ ∀ i j, subgrid.OwnsColumn i j →
      P.amountY subgrid (i, j) + P.amountX subgrid (i, j) = P.outflow i j := by
  have hreturns : Returns (P.overlandSum bcTypes subgrid v) _ := overlandSum_returns hone v
  constructor
  · rintro ⟨v', hv', hcolumns⟩ i j howned
    have hcolumn := hcolumns i j howned
    rw [hv'.unique hreturns, added_column hspace howned] at hcolumn
    exact add_left_cancel hcolumn
  · refine fun h => ⟨_, hreturns, fun i j howned => ?_⟩
    rw [added_column hspace howned, h i j howned]

/-- The sums are right when the scans miss nothing of an active column and add nothing to an inactive one. -/
theorem sumsOutflow_iff {bcTypes : List ℤ} {v : Subvector K} (hone : bcTypes.count 7 = 1)
    (hspace : v.dataSpace.GhostColumns subgrid) : P.SumsOutflow bcTypes subgrid v ↔ ∀ i j, subgrid.OwnsColumn i j →
      (0 ≤ P.top.column i j → P.lostOutflow subgrid i j = 0) ∧ (P.top.column i j < 0 → P.strayOutflow subgrid i j = 0) := by
  rw [sumsOutflow_iff_added hone hspace]
  refine forall₃_congr fun i j howned => ?_
  -- an active column asks for the first part only, an inactive one for the second
  rcases le_or_gt 0 (P.top.column i j) with hactive | hinactive
  · rw [← added_active hactive howned, left_eq_add]
    exact ⟨fun h => ⟨fun _ => h, fun h' => absurd h' (not_lt.mpr hactive)⟩, fun h => h.1 hactive⟩
  · rw [outflow_inactive hinactive, added_inactive hinactive]
    exact ⟨fun h => ⟨fun h' => absurd hinactive (not_lt.mpr h'), fun _ => h⟩, fun h => h.2 hinactive⟩

/-- The sums are right where no run in a row or a column is one column long. -/
theorem sumsOutflow_of_wide {bcTypes : List ℤ} {v : Subvector K} (hone : bcTypes.count 7 = 1)
    (hspace : v.dataSpace.GhostColumns subgrid)
    (hY : ∀ i, subgrid.ix ≤ i → i < subgrid.ix + subgrid.nx → WideRuns (P.top.column i) subgrid.iy (subgrid.iy + subgrid.ny))
    (hX : ∀ j, subgrid.iy ≤ j → j < subgrid.iy + subgrid.ny →
      WideRuns (fun i => P.top.column i j) subgrid.ix (subgrid.ix + subgrid.nx)) : P.SumsOutflow bcTypes subgrid v := by
  refine (sumsOutflow_iff_added hone hspace).mpr fun i j howned => ?_
  obtain ⟨⟨hi', hi⟩, hj', hj⟩ := howned
  have hwideY := hY i hi' hi
  have hwideX := hX j hj' hj
  rcases le_or_gt 0 (P.top.column i j) with hactive | hinactive
  · rw [← added_active hactive ⟨⟨hi', hi⟩, hj', hj⟩, left_eq_add]
    unfold lostOutflow
    rw [hwideY.lineLost_eq_zero hj, hwideX.lineLost_eq_zero hi, add_zero]
  · rw [outflow_inactive hinactive, added_inactive hinactive]
    unfold strayOutflow
    rw [hwideY.lineStray_eq_zero hj hinactive, hwideX.lineStray_eq_zero hi hinactive, add_zero]

/-! ## Islands -/

def square (n : ℤ) : Subgrid := newSubgrid 0 0 0 n n 1 0 0 0 0

theorem ghostColumns_square (n : ℤ) : (ghostSpace (square n) 1).GhostColumns (square n) := by
  intro i j h
  rw [Subregion.mem_cells_iff]
  simp only [square, ghostSpace, newSubgrid] at h ⊢
  omega

/-- One unit of water on every column, on ground that falls along y. The active columns are given by their places in the
data. -/
def island (n : ℤ) (active : List ℤ) : OutflowData ℚ where
  powers := ⟨id, id⟩
  slopeX := ⟨ghostSpace (square n) 1, fun _ => 0⟩
  slopeY := ⟨ghostSpace (square n) 1, fun _ => -1⟩
  mannings := ⟨ghostSpace (square n) 1, fun _ => 1⟩
  top := ⟨ghostSpace (square n) 1, fun index => if index ∈ active then 0 else -1⟩
  pressure := ⟨ghostSpace (square n) 1, fun _ => 1⟩
  dx := 1
  dy := 1
  dt := 1

def noOutflow (n : ℤ) : Subvector ℚ := ⟨ghostSpace (square n) 1, fun _ => 0⟩

/-- On an island of two by two columns every run has two columns. -/
theorem island_two_sums : (island 2 [21, 22, 25, 26]).SumsOutflow [7] (square 2) (noOutflow 2) := by
  refine (sumsOutflow_iff (v := noOutflow 2) rfl (ghostColumns_square 2)).mpr fun i j howned => ?_
  obtain ⟨⟨hi, hi'⟩, hj, hj'⟩ := howned
  simp only [square, newSubgrid] at hi hi' hj hj'
  obtain rfl | rfl : i = 0 ∨ i = 1 := by omega
  all_goals
    obtain rfl | rfl : j = 0 ∨ j = 1 := by omega
    all_goals decide +kernel

/-- On an island of one column the scan along y misses the higher face. -/
theorem island_one_not_sums : ¬ (island 1 [13]).SumsOutflow [7] (square 1) (noOutflow 1) := by
  rw [sumsOutflow_iff_added (v := noOutflow 1) rfl (ghostColumns_square 1)]
  intro h
  have hcolumn := h 0 0 (by decide +kernel)
  exact absurd hcolumn (by decide +kernel)

end OutflowData

end ParFlow
