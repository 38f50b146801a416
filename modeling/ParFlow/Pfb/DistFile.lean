import ParFlow.Comm.VectorCells
import ParFlow.Grid.SubgridCells
import ParFlow.Pfb.DistDefs

/-! `LoadParflowB` writes the file that the processes of the simulator write. Both go through the subgrids in
the order of the processes, one with a running position, the others with positions they are given. -/

namespace ParFlow.Pfb

open IntLoop ByteFile

/-! ## The distribution -/

theorem Tools.pqrToXyz_eq (pqr mxyz lxyz xyz : ℤ) : Tools.pqrToXyz pqr mxyz lxyz xyz = ParFlow.pqrToXyz pqr mxyz lxyz xyz := by
  unfold Tools.pqrToXyz ParFlow.pqrToXyz Tools.userGridMin
  split_ifs with h
  · rw [min_eq_left h.le]
  · rw [min_eq_right (not_lt.mp h)]

theorem Tools.distributeUserGrid_eq (user : Subgrid) (numProcs P Q R : ℤ) :
    Tools.distributeUserGrid user numProcs P Q R = ParFlow.distributeUserGrid none user numProcs P Q R := by
  unfold Tools.distributeUserGrid ParFlow.distributeUserGrid
  simp only [Tools.pqrToXyz_eq]
  rfl

/-! ## Writes -/

/-- Positions and sizes that are announced give writes that lie one behind the other. -/
theorem flatten_placed (chunks : List (List (List UInt8))) {total : ℤ} (h0 : 0 ≤ total) :
    (List.zipWith (fun start cs => placed start.toNat cs)
      (ampsFFopen total (chunks.map fun cs => (cs.flatten.length : ℤ))) chunks).flatten =
      placed total.toNat chunks.flatten := by
  induction chunks generalizing total with
  | nil => rfl
  | cons cs chunks ih =>
    rw [List.map_cons, ampsFFopen, List.zipWith_cons_cons, List.flatten_cons, List.flatten_cons, placed_append,
      ih (by omega)]
    congr 2
    omega

section Encoding

variable {α : Type} (enc : Encoding α)

theorem Encoding.length_field (f : Field α) : ((enc.field f).length : ℤ) = f.size := by
  cases f with
  | int v => exact congrArg Nat.cast (enc.length_int v)
  | double w => exact congrArg Nat.cast (enc.length_double w)

theorem Encoding.length_fields (fields : List (Field α)) :
    (((fields.map enc.field).flatten.length : ℕ) : ℤ) = fieldsSize fields := by
  induction fields with
  | nil => rfl
  | cons f fields ih =>
    rw [List.map_cons, List.flatten_cons, List.length_append]
    push_cast
    rw [ih, enc.length_field]
    simp [fieldsSize]

end Encoding

/-- The writes of all processes lie one behind the other. -/
theorem allWrites_placed {α : Type} (enc : Encoding α) (lower spacing : α × α × α) (subgrids : SubgridArray)
    (vec : Subgrid → Subvector α) (numProcs : ℤ) : allWrites enc lower spacing subgrids vec numProcs =
      placed 0 (((upto 0 numProcs).flatMap (rankFields lower spacing subgrids vec numProcs)).map enc.field) := by
  let chunk := fun n => (rankFields lower spacing subgrids vec numProcs n).map enc.field
  have hsizes : (upto 0 numProcs).map (fun n => writePFBinarySize n (rankSubvectors vec subgrids n)) =
      ((upto 0 numProcs).map chunk).map fun cs => (cs.flatten.length : ℤ) := by
    rw [List.map_map]
    apply List.map_congr_left
    intro n _
    show _ = ((((rankFields lower spacing subgrids vec numProcs n).map enc.field).flatten.length : ℕ) : ℤ)
    rw [enc.length_fields]
    exact (fieldsSize_writePFBinary _ _ _ _).symm
  have hzip : ∀ starts : List ℤ, List.zipWith (fun start n => placed start.toNat (chunk n)) starts (upto 0 numProcs) =
      List.zipWith (fun start cs => placed start.toNat cs) starts ((upto 0 numProcs).map chunk) := by
    intro starts
    rw [List.zipWith_map_right]
  unfold allWrites processStarts
  rw [hsizes, hzip, flatten_placed _ le_rfl, List.map_flatMap]
  rfl

/-! ## The loop of the tools -/

section Load

variable {α : Type} (lower spacing : α × α × α) (databox : Databox α)

/-- The positions behind chunks of these sizes. -/
def sumsAfter : ℤ → List ℤ → List ℤ
  | _, [] => []
  | total, z :: zs => (total + z) :: sumsAfter (total + z) zs

/-- Without the last one, they are the positions where chunks start. -/
theorem take_sumsAfter (total : ℤ) (zs : List ℤ) : (total :: sumsAfter total zs).take zs.length = ampsFFopen total zs := by
  induction zs generalizing total with
  | nil => rfl
  | cons z zs ih =>
    rw [List.length_cons, List.take_succ_cons, ampsFFopen, sumsAfter, ih]

theorem loadParflowB_eq (all : SubgridArray) : loadParflowB lower spacing databox all =
    (rankOrder all (loadNumProcs all)).foldl (loadStep lower spacing databox (loadNumProcs all)) ⟨[], 0, [0]⟩ := by
  unfold loadParflowB rankOrder
  dsimp only
  rw [List.foldl_flatMap]
  congr 1
  funext st p
  unfold getGridSubgrids
  rw [List.foldl_filter]
  simp only [decide_eq_true_eq]

/-- What a subgrid adds to the file. -/
def loadFields (numProcs : ℤ) (s : Subgrid) : List (Field α) :=
  (if s.process = 0 then loadHeader lower spacing databox numProcs else []) ++ loadSubgrid databox s

def loadSize (s : Subgrid) : ℤ :=
  (if s.process = 0 then 6 * sizeofDouble + 4 * sizeofInt else 0) + (9 * sizeofInt + s.nx * s.ny * s.nz * sizeofDouble)

theorem foldl_loadStep (numProcs : ℤ) (l : SubgridArray) (st : LoadState α) :
    (l.foldl (loadStep lower spacing databox numProcs) st).fields =
        st.fields ++ l.flatMap (loadFields lower spacing databox numProcs) ∧
      (l.foldl (loadStep lower spacing databox numProcs) st).distLines =
        st.distLines ++ sumsAfter st.filePos (l.map loadSize) := by
  induction l generalizing st with
  | nil =>
    rw [List.flatMap_nil, List.append_nil, List.map_nil, sumsAfter, List.append_nil]
    exact ⟨rfl, rfl⟩
  | cons s l ih =>
    obtain ⟨hfields, hdist⟩ := ih (loadStep lower spacing databox numProcs st s)
    have hpos : (loadStep lower spacing databox numProcs st s).filePos = st.filePos + loadSize s := add_assoc _ _ _
    have hlines : (loadStep lower spacing databox numProcs st s).distLines = st.distLines ++ [st.filePos + loadSize s] :=
      congrArg (fun z => st.distLines ++ [z]) (add_assoc _ _ _)
    constructor
    · rw [List.foldl_cons, hfields, List.flatMap_cons, ← List.append_assoc]
      rfl
    · rw [List.foldl_cons, hdist, hpos, hlines, List.append_assoc]
      rfl

end Load

/-! ## The subgrids of a layout -/

theorem lastCell_mem {s : Subgrid} (hs : s.NonEmpty) : lastCell s ∈ s.cells := by
  rw [Subregion.mem_cells_axis]
  intro a
  have := Subregion.nonEmpty_axis.mp hs a
  rw [coord_lastCell]
  omega

/-- The bounds of a subgrid that lies in another one. -/
theorem bounds_of_subset {s t : Subgrid} (hs : s.NonEmpty) (hst : s.cells ⊆ t.cells) (a : Axis) :
    t.lo a ≤ s.lo a ∧ s.lo a + s.num a ≤ t.lo a + t.num a := by
  have hfirst : Axis.cell s.lo ∈ s.cells := by
    rw [Subregion.mem_cells_axis]
    intro b
    have := Subregion.nonEmpty_axis.mp hs b
    rw [Axis.coord_cell]
    omega
  have hlower := Subregion.mem_cells_axis.mp (hst hfirst) a
  have hupper := Subregion.mem_cells_axis.mp (hst (lastCell_mem hs)) a
  rw [Axis.coord_cell] at hlower
  rw [coord_lastCell] at hupper
  omega

section Layout

variable {nx ny nz p q r : ℤ}

/-- The subgrid of process `n`. -/
def rankBlock (nx ny nz p q r n : ℤ) : Subgrid := blockAt (domainGrid nx ny nz) (p, q, r) (getSubgridLoc n p q r)

variable (hfits : Fits (domainGrid nx ny nz) (p, q, r))

include hfits

theorem getGridSubgrids_rank {n : ℤ} (hn : 0 ≤ n ∧ n < p * q * r) :
    getGridSubgrids (layoutBlocks (domainGrid nx ny nz) (p, q, r)) n = [rankBlock nx ny nz p q r n] :=
  getGridSubgrids_layoutBlocks _ (hfits.pos .x) (hfits.pos .y) hn

theorem rankBlock_nonEmpty (n : ℤ) : (rankBlock nx ny nz p q r n).NonEmpty := hfits.nonEmpty_blockAt _

theorem rankBlock_process {n : ℤ} (hn : 0 ≤ n ∧ n < p * q * r) : (rankBlock nx ny nz p q r n).process = n :=
  (getSubgridLoc_spec (hfits.pos .x) (hfits.pos .y) hn).2

theorem rankOrder_eq : rankOrder (layoutBlocks (domainGrid nx ny nz) (p, q, r)) (p * q * r) =
    (upto 0 (p * q * r)).map (rankBlock nx ny nz p q r) := by
  unfold rankOrder
  rw [List.map_eq_flatMap]
  apply List.flatMap_congr
  intro n hn
  rw [mem_upto] at hn
  exact getGridSubgrids_rank hfits hn

theorem loadNumProcs_eq : loadNumProcs (layoutBlocks (domainGrid nx ny nz) (p, q, r)) = p * q * r := by
  have hdist := hfits.isDistribution
  have hgreat := isGreatest_foldl (fun s : Subgrid => s.process) (-1) (layoutBlocks (domainGrid nx ny nz) (p, q, r))
  have hpos : 0 < p * q * r := mul_pos (mul_pos (hfits.pos .x) (hfits.pos .y)) (hfits.pos .z)
  have hlast : IsGreatest (insert (-1) {n | ∃ s ∈ layoutBlocks (domainGrid nx ny nz) (p, q, r), s.process = n})
      (p * q * r - 1) := by
    have hmem := fun n => (hdist.mem_processes n)
    simp only [List.mem_map] at hmem
    constructor
    · exact Or.inr ((hmem _).mpr (by omega))
    · rintro n (rfl | hn)
      · omega
      · have := (hmem n).mp hn
        omega
  unfold loadNumProcs
  rw [hgreat.unique hlast, sub_add_cancel]

theorem numSubgridsAllReduce_eq :
    numSubgridsAllReduce (layoutBlocks (domainGrid nx ny nz) (p, q, r)) (p * q * r) = p * q * r := by
  have hpos : 0 < p * q * r := mul_pos (mul_pos (hfits.pos .x) (hfits.pos .y)) (hfits.pos .z)
  have hone : ∀ n ∈ upto 0 (p * q * r),
      ((getGridSubgrids (layoutBlocks (domainGrid nx ny nz) (p, q, r)) n).length : ℤ) = 1 := by
    intro n hn
    rw [mem_upto] at hn
    rw [getGridSubgrids_rank hfits hn]
    rfl
  unfold numSubgridsAllReduce
  rw [List.map_congr_left hone, List.map_const', List.sum_replicate, length_upto]
  simp only [nsmul_eq_mul, mul_one, sub_zero]
  exact Int.toNat_of_nonneg hpos.le

/-- The background of a layout from the lower index zero on has the sizes of the domain. -/
theorem layout_background (hint : ∀ a, (domainGrid nx ny nz).num a ≤ INT_MAX) (own : SubgridArray) (a : Axis) :
    (newGrid own (layoutBlocks (domainGrid nx ny nz) (p, q, r))).background.num a = (domainGrid nx ny nz).num a := by
  have hdist := hfits.isDistribution
  have hlo : (domainGrid nx ny nz).lo a = 0 := by cases a <;> rfl
  have hin : ∀ s ∈ layoutBlocks (domainGrid nx ny nz) (p, q, r), ∀ b : Axis,
      0 ≤ s.lo b ∧ s.lo b + s.num b ≤ (domainGrid nx ny nz).num b := by
    intro s hs b
    have hsub : s.cells ⊆ (domainGrid nx ny nz).cells := fun c hc => (hdist.exact.2 c).mp ⟨s, hs, hc⟩
    have hb := bounds_of_subset (hdist.nonEmpty s hs) hsub b
    have hlob : (domainGrid nx ny nz).lo b = 0 := by cases b <;> rfl
    rw [hlob] at hb
    omega
  have hne : layoutBlocks (domainGrid nx ny nz) (p, q, r) ≠ [] := by
    intro hnil
    have hpos : 0 < p * q * r := mul_pos (mul_pos (hfits.pos .x) (hfits.pos .y)) (hfits.pos .z)
    have hmem := (hdist.mem_processes 0).mpr ⟨le_rfl, hpos⟩
    rw [hnil] at hmem
    exact absurd hmem List.not_mem_nil
  have hbounds : IntBounds (layoutBlocks (domainGrid nx ny nz) (p, q, r)) := by
    intro s hs b
    have hb := hin s hs b
    have hnum := Subregion.nonEmpty_axis.mp (hdist.nonEmpty s hs) b
    have := hint b
    unfold INT_MIN
    omega
  -- the subgrid with the last cell ends where the domain ends
  have hgreat : IsGreatest (uppers (layoutBlocks (domainGrid nx ny nz) (p, q, r)) a) ((domainGrid nx ny nz).num a) := by
    constructor
    · have hdomain : (domainGrid nx ny nz).NonEmpty := by
        rw [Subregion.nonEmpty_axis]
        exact fun b => (hfits.pos b).trans_le (hfits.le b)
      obtain ⟨s, hs, hc⟩ := (hdist.exact.2 _).mpr (lastCell_mem hdomain)
      refine ⟨s, hs, ?_⟩
      have h₁ := Subregion.mem_cells_axis.mp hc a
      have h₂ := hin s hs a
      rw [coord_lastCell, hlo] at h₁
      omega
    · rintro u ⟨s, hs, rfl⟩
      exact (hin s hs a).2
  exact (newGrid_num_isGreatest hne hbounds).unique hgreat

end Layout

/-! ## One subgrid -/

section Subgrid

variable {α : Type} {databox : Databox α} {v : Subvector α} {s : Subgrid}

/-- The subvector has the values of the databox at the cells of its subgrid. -/
def HoldsDatabox (databox : Databox α) (v : Subvector α) (s : Subgrid) : Prop :=
  ∀ c ∈ s.cells, v.get c = databox.coeffs (databox.coeff c.1 c.2.1 c.2.2)

/-- A record holds the values of the cells, whatever the ghost layers of the subvector. -/
theorem writePFBinarySubvector_eq (v : Subvector α) (s : Subgrid) :
    writePFBinarySubvector v s = subgridHeader s ++ (cellList s).map fun c => .double (v.get c) := by
  unfold writePFBinarySubvector
  simp only [boxLoopI1_cells, List.map_map, Function.comp_def, data_cellIndex]

/-- The tools and the simulator write the same record for a subgrid. -/
theorem loadSubgrid_eq (h : HoldsDatabox databox v s) (hunit : s.UnitStride) :
    loadSubgrid databox s = writePFBinarySubvector v s := by
  obtain ⟨hsx, hsy, hsz⟩ := hunit
  have htools : ((upto 0 s.nz).flatMap fun k => (upto 0 s.ny).flatMap fun j => (upto 0 s.nx).map fun i =>
      Field.double (databox.coeffs (databox.coeff s.ix s.iy s.iz + j * databox.nx + k * (databox.nx * databox.ny) + i))) =
      s.points.map fun c => .double (databox.coeffs (databox.coeff c.1 c.2.1 c.2.2)) := by
    unfold Subregion.points nest
    simp only [List.map_flatMap, List.map_map, hsx, hsy, hsz, mul_one]
    apply List.flatMap_congr
    intro k _
    apply List.flatMap_congr
    intro j _
    apply List.map_congr_left
    intro i _
    simp only [Function.comp_apply, Databox.coeff]
    congr 2
    ring
  unfold loadSubgrid
  dsimp only
  rw [htools, writePFBinarySubvector_eq, points_eq_cellList ⟨hsx, hsy, hsz⟩]
  unfold subgridHeader
  congr 1
  apply List.map_congr_left
  intro c hc
  rw [h c (mem_cellList.mp hc)]

theorem loadSize_eq (v : Subvector α) (hs : s.NonEmpty) :
    loadSize s = writePFBinarySize s.process [(v, s)] := by
  unfold loadSize writePFBinarySize
  rw [List.foldl_cons, List.foldl_nil, sizeofPFBinarySubvector_eq v hs]
  unfold volume sizeofInt sizeofDouble
  ring

end Subgrid

/-! ## The file -/

section File

variable {α : Type} {enc : Encoding α} {lower spacing : α × α × α} {databox : Databox α} {vec : Subgrid → Subvector α}
  {nx ny nz p q r : ℤ} (hfits : Fits (domainGrid nx ny nz) (p, q, r))
  (hint : ∀ a, (domainGrid nx ny nz).num a ≤ INT_MAX) (hsize : (databox.nx, databox.ny, databox.nz) = (nx, ny, nz))
  (hvec : ∀ s ∈ layoutBlocks (domainGrid nx ny nz) (p, q, r), HoldsDatabox databox (vec s) s)

include hfits

theorem rankBlock_mem {n : ℤ} (hn : 0 ≤ n ∧ n < p * q * r) :
    rankBlock nx ny nz p q r n ∈ layoutBlocks (domainGrid nx ny nz) (p, q, r) := by
  have hmem := List.mem_singleton_self (rankBlock nx ny nz p q r n)
  rw [← getGridSubgrids_rank hfits hn] at hmem
  exact List.mem_of_mem_filter hmem

theorem rankSubvectors_eq (vec : Subgrid → Subvector α) {n : ℤ} (hn : 0 ≤ n ∧ n < p * q * r) :
    rankSubvectors vec (layoutBlocks (domainGrid nx ny nz) (p, q, r)) n =
      [(vec (rankBlock nx ny nz p q r n), rankBlock nx ny nz p q r n)] := by
  unfold rankSubvectors
  rw [getGridSubgrids_rank hfits hn, List.map_singleton]

theorem loadSize_rankBlock (vec : Subgrid → Subvector α) {n : ℤ} (hn : 0 ≤ n ∧ n < p * q * r) :
    loadSize (rankBlock nx ny nz p q r n) =
      writePFBinarySize n (rankSubvectors vec (layoutBlocks (domainGrid nx ny nz) (p, q, r)) n) := by
  rw [rankSubvectors_eq hfits vec hn, loadSize_eq (vec _) (rankBlock_nonEmpty hfits n), rankBlock_process hfits hn]

omit hfits in
theorem fileHeader_eq (lower spacing : α × α × α) (numSubgrids : ℤ) {grid : FullGrid}
    (hx : grid.background.nx = databox.nx) (hy : grid.background.ny = databox.ny) (hz : grid.background.nz = databox.nz) :
    fileHeader (headerBackground lower spacing grid) numSubgrids = loadHeader lower spacing databox numSubgrids := by
  unfold fileHeader headerBackground loadHeader
  dsimp only
  rw [hx, hy, hz]

include hint hsize hvec

/-- A process writes what the tools write for its subgrid. -/
theorem rankFields_eq {n : ℤ} (hn : 0 ≤ n ∧ n < p * q * r) :
    rankFields lower spacing (layoutBlocks (domainGrid nx ny nz) (p, q, r)) vec (p * q * r) n =
      loadFields lower spacing databox (p * q * r) (rankBlock nx ny nz p q r n) := by
  have hback := layout_background hfits hint (getGridSubgrids (layoutBlocks (domainGrid nx ny nz) (p, q, r)) n)
  obtain ⟨hnx, hny, hnz⟩ : databox.nx = nx ∧ databox.ny = ny ∧ databox.nz = nz := by
    simpa only [Prod.mk.injEq] using hsize
  have hheader := fileHeader_eq lower spacing (p * q * r)
    ((hback .x).trans hnx.symm) ((hback .y).trans hny.symm) ((hback .z).trans hnz.symm)
  unfold rankFields writePFBinary loadFields
  rw [rankSubvectors_eq hfits vec hn, numSubgridsAllReduce_eq hfits, hheader, rankBlock_process hfits hn,
    List.flatMap_singleton, loadSubgrid_eq (hvec _ (rankBlock_mem hfits hn)) ⟨rfl, rfl, rfl⟩]

/-- All fields of the file, process by process. -/
theorem loadParflowB_fields :
    (loadParflowB lower spacing databox (layoutBlocks (domainGrid nx ny nz) (p, q, r))).fields =
      (upto 0 (p * q * r)).flatMap
        (rankFields lower spacing (layoutBlocks (domainGrid nx ny nz) (p, q, r)) vec (p * q * r)) := by
  rw [loadParflowB_eq, loadNumProcs_eq hfits, rankOrder_eq hfits, (foldl_loadStep _ _ _ _ _ _).1, List.nil_append,
    List.flatMap_map]
  apply List.flatMap_congr
  intro n hn
  rw [mem_upto] at hn
  exact (rankFields_eq hfits hint hsize hvec hn).symm

/-- The file is the one of the tools. -/
theorem allWrites_eq : allWrites enc lower spacing (layoutBlocks (domainGrid nx ny nz) (p, q, r)) vec (p * q * r) =
    placed 0 ((loadParflowB lower spacing databox (layoutBlocks (domainGrid nx ny nz) (p, q, r))).fields.map enc.field) := by
  rw [allWrites_placed, loadParflowB_fields hfits hint hsize hvec]

omit hint hsize hvec in
theorem loadParflowB_dist (vec : Subgrid → Subvector α) :
    (loadParflowB lower spacing databox (layoutBlocks (domainGrid nx ny nz) (p, q, r))).distLines.take (p * q * r).toNat =
      processStarts vec (layoutBlocks (domainGrid nx ny nz) (p, q, r)) (p * q * r) := by
  have hsizes : ((upto 0 (p * q * r)).map (rankBlock nx ny nz p q r)).map loadSize = (upto 0 (p * q * r)).map
      fun n => writePFBinarySize n (rankSubvectors vec (layoutBlocks (domainGrid nx ny nz) (p, q, r)) n) := by
    rw [List.map_map]
    apply List.map_congr_left
    intro n hn
    rw [mem_upto] at hn
    exact loadSize_rankBlock hfits vec hn
  rw [loadParflowB_eq, loadNumProcs_eq hfits, rankOrder_eq hfits, (foldl_loadStep _ _ _ _ _ _).2, hsizes]
  unfold processStarts
  rw [← take_sumsAfter, List.length_map, length_upto, sub_zero]
  rfl

end File

end ParFlow.Pfb
