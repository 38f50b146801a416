import ParFlow.Grid.Distribute
import ParFlow.Pfb.SubgridInfoDefs

/-! The tools and the simulator agree on the layout of a PFB file. -/

namespace ParFlow.Pfb

open IntLoop Strided BlockSplit

/-! ## Offsets of the tools -/

section Tools

variable (nx ny nz p q r : ℤ)

def subgridStart (n : ℤ) : Cell :=
  let mgrm := getMaingridAndRemainder nx ny nz p q r
  subgridLowerLeft mgrm.1 (getSubgridLoc n p q r) mgrm.2

def subgridShape (n : ℤ) : Cell :=
  let mgrm := getMaingridAndRemainder nx ny nz p q r
  subgridSize mgrm.1 (getSubgridLoc n p q r) mgrm.2

/-- The position of the data of the `k`-th subgrid: behind the file header, the subgrids before it
with their headers, and its own header. -/
def dataOffset (shape : ℤ → Cell) (k : ℕ) : ℤ := 100 + ∑ j ∈ Finset.range k, (36 + 8 * volume (shape j))

theorem dataOffset_succ (shape : ℤ → Cell) (k : ℕ) :
    dataOffset shape (k + 1) = dataOffset shape k + (36 + 8 * volume (shape k)) := by
  unfold dataOffset
  rw [Finset.sum_range_succ, add_assoc]

/-- The information about the first `k` subgrids. -/
def infoUpTo (k : ℕ) : SubgridInfo where
  subgridOffsets := (List.range k).map (dataOffset (subgridShape nx ny nz p q r))
  subgridLocs := (List.range k).map fun n : ℕ => getSubgridLoc n p q r
  subgridBeginIdxs := (List.range k).map fun n : ℕ => subgridStart nx ny nz p q r n
  subgridShapes := (List.range k).map fun n : ℕ => subgridShape nx ny nz p q r n

/-- The loop variables after `k` rounds. -/
structure InfoInv (k : ℕ) (st : InfoState) : Prop where
  off_eq : st.off + (36 + 8 * volume st.shape) = dataOffset (subgridShape nx ny nz p q r) k
  info_eq : st.info = infoUpTo nx ny nz p q r k

variable {nx ny nz p q r}

theorem InfoInv.infoStep {k : ℕ} {st : InfoState} (h : InfoInv nx ny nz p q r k st) :
    InfoInv nx ny nz p q r (k + 1) (infoStep nx ny nz p q r st k) := by
  have hoff : (Pfb.infoStep nx ny nz p q r st k).off = dataOffset (subgridShape nx ny nz p q r) k := h.off_eq
  constructor
  · rw [hoff, dataOffset_succ]
    rfl
  · simp only [Pfb.infoStep, h.info_eq, infoUpTo, List.range_succ, List.map_append, List.map_cons, List.map_nil] at hoff ⊢
    rw [hoff]
    rfl

variable (nx ny nz p q r)

theorem precalculateSubgridInfo_eq :
    precalculateSubgridInfo nx ny nz p q r = infoUpTo nx ny nz p q r (p * q * r).toNat := by
  have hrun : ∀ k : ℕ, InfoInv nx ny nz p q r k (((List.range k).map fun n : ℕ => (n : ℤ)).foldl
      (infoStep nx ny nz p q r) ⟨64, (0, 0, 0), ⟨[], [], [], []⟩⟩) := by
    intro k
    induction k with
    | zero => exact ⟨rfl, rfl⟩
    | succ k ih =>
      rw [List.range_succ, List.map_append, List.foldl_append]
      exact ih.infoStep
  unfold precalculateSubgridInfo
  rw [upto_zero_eq]
  exact (hrun _).info_eq

end Tools

/-! ## Positions of the subgrids -/

section Layout

variable {p q r n : ℤ}

theorem getSubgridLoc_spec (hp : 0 < p) (hq : 0 < q) (hn : 0 ≤ n ∧ n < p * q * r) :
    InLayout (p, q, r) (getSubgridLoc n p q r) ∧
      pqrToProcess (getSubgridLoc n p q r).1 (getSubgridLoc n p q r).2.1 (getSubgridLoc n p q r).2.2 p q r = n := by
  have hpq : 0 < p * q := mul_pos hp hq
  have hrest := Int.emod_add_mul_ediv n (p * q)
  have hrest0 := Int.emod_nonneg n hpq.ne'
  have hrest1 := Int.emod_lt_of_pos n hpq
  have hr : n / (p * q) < r := by
    apply Int.ediv_lt_of_lt_mul hpq
    rw [mul_comm]
    exact hn.2
  have hloc : getSubgridLoc n p q r = (n % (p * q) % p, n % (p * q) / p, n / (p * q)) := by
    have hsub : n - n / (p * q) * p * q = n % (p * q) := by linarith
    have hrow := Int.emod_add_mul_ediv (n % (p * q)) p
    simp only [getSubgridLoc, Int.fdiv_eq_ediv_of_nonneg _ hpq.le, Int.fdiv_eq_ediv_of_nonneg _ hp.le, hsub, Prod.mk.injEq,
      and_true]
    linarith
  rw [hloc]
  constructor
  · refine Axis.forall.mpr ⟨⟨Int.emod_nonneg _ hp.ne', Int.emod_lt_of_pos _ hp⟩, ⟨Int.ediv_nonneg hrest0 hp.le, ?_⟩,
      Int.ediv_nonneg hn.1 hpq.le, hr⟩
    apply Int.ediv_lt_of_lt_mul hp
    exact hrest1.trans_eq (mul_comm p q)
  · have hrow := Int.emod_add_mul_ediv (n % (p * q)) p
    simp only [pqrToProcess]
    linarith

/-- The record of a subgrid in the file, without the resolutions. -/
def record (s : Subgrid) : Cell × Cell := ((s.ix, s.iy, s.iz), (s.nx, s.ny, s.nz))

variable {nx ny nz : ℤ}

/-- The user grid of the domain `[0, nx) × [0, ny) × [0, nz)`. -/
def domainGrid (nx ny nz : ℤ) : Subgrid := newSubgrid 0 0 0 nx ny nz 0 0 0 0

theorem record_blockAt (hp : 0 ≤ p) (hq : 0 ≤ q) (hr : 0 ≤ r) (hx : 0 ≤ nx) (hy : 0 ≤ ny) (hz : 0 ≤ nz) :
    record (blockAt (domainGrid nx ny nz) (p, q, r) (getSubgridLoc n p q r)) =
      (subgridStart nx ny nz p q r n, subgridShape nx ny nz p q r n) := by
  have hsize : ∀ m l k : ℤ, (if k ≥ l then m else m + 1) = pqrToNxyz k m l := by
    intro m l k
    unfold pqrToNxyz
    split_ifs <;> omega
  simp only [record, blockAt, processSubgrid, domainGrid, newSubgrid, subgridStart, subgridShape, subgridLowerLeft,
    subgridSize, getMaingridAndRemainder, hsize, pqrToXyz, add_zero, Int.fmod_eq_tmod_of_nonneg hx hp,
    Int.fmod_eq_tmod_of_nonneg hy hq, Int.fmod_eq_tmod_of_nonneg hz hr]

/-- Each process has one subgrid, the one at the position that the tools compute. -/
theorem getGridSubgrids_layoutBlocks (user : Subgrid) (hp : 0 < p) (hq : 0 < q) (hn : 0 ≤ n ∧ n < p * q * r) :
    getGridSubgrids (layoutBlocks user (p, q, r)) n = [blockAt user (p, q, r) (getSubgridLoc n p q r)] := by
  obtain ⟨hin, hproc⟩ := getSubgridLoc_spec hp hq hn
  have hpair : (layoutBlocks user (p, q, r)).Pairwise fun s t => s.process ≠ t.process := by
    apply layoutBlocks_pairwise
    intro c c' hc hc' hne he
    exact hne (processes_inj hc hc' he)
  have hmem : blockAt user (p, q, r) (getSubgridLoc n p q r) ∈ getGridSubgrids (layoutBlocks user (p, q, r)) n :=
    List.mem_filter.mpr ⟨mem_layoutBlocks.mpr ⟨_, hin, rfl⟩, decide_eq_true hproc⟩
  have hone : ∀ s ∈ getGridSubgrids (layoutBlocks user (p, q, r)) n,
      s = blockAt user (p, q, r) (getSubgridLoc n p q r) := by
    intro s hs
    obtain ⟨hs, hsn⟩ := List.mem_filter.mp hs
    obtain ⟨c, hc, rfl⟩ := mem_layoutBlocks.mp hs
    rw [processes_inj hc hin ((of_decide_eq_true hsn).trans hproc.symm)]
  have hnodup : (getGridSubgrids (layoutBlocks user (p, q, r)) n).Nodup :=
    (hpair.imp fun hne he => hne (congrArg Subregion.process he)).sublist List.filter_sublist
  have hlen := List.eq_replicate_iff.mpr ⟨rfl, hone⟩
  rw [hlen] at hnodup hmem ⊢
  have hle := List.nodup_replicate.mp hnodup
  have hpos := List.length_pos_of_mem hmem
  rw [List.length_replicate] at hpos
  rw [show (getGridSubgrids (layoutBlocks user (p, q, r)) n).length = 1 by omega]
  rfl

end Layout

/-! ## Sizes of the simulator -/

section Simulator

variable {α : Type}

theorem foldl_add_eq {β : Type} (f : β → ℤ) (l : List β) (a : ℤ) :
    l.foldl (fun size b => size + f b) a = a + (l.map f).sum := by
  induction l generalizing a with
  | nil => simp
  | cons b l ih => rw [List.foldl_cons, ih, List.map_cons, List.sum_cons, add_assoc]

theorem sizeofPFBinarySubvector_eq (subvector : Subvector α) {s : Subgrid} (hs : s.NonEmpty) :
    sizeofPFBinarySubvector subvector s = 36 + 8 * volume (s.nx, s.ny, s.nz) := by
  obtain ⟨hx, hy, hz⟩ := hs
  unfold sizeofPFBinarySubvector
  rw [foldl_add_eq fun _ => sizeofDouble, boxLoopI1_eq hx.le hy.le hz.le, List.map_const', List.sum_replicate,
    List.length_map, nsmul_eq_mul, length_boxLoopI0 hx.le hy.le hz.le, mul_comm _ sizeofDouble]
  rfl

theorem fieldsSize_append (l m : List (Field α)) : fieldsSize (l ++ m) = fieldsSize l + fieldsSize m := by
  simp [fieldsSize]

theorem fieldsSize_doubles {β : Type} (f : β → α) (l : List β) :
    fieldsSize (l.map fun b => Field.double (f b)) = 8 * l.length := by
  induction l with
  | nil => rfl
  | cons b l ih =>
    have hcons : fieldsSize ((b :: l).map fun b => Field.double (f b)) =
        8 + fieldsSize (l.map fun b => Field.double (f b)) := by
      simp [fieldsSize, Field.size, sizeofDouble]
    rw [hcons, ih, List.length_cons]
    push_cast
    ring

theorem fieldsSize_flatMap {β : Type} (f : β → List (Field α)) (l : List β) :
    fieldsSize (l.flatMap f) = (l.map fun b => fieldsSize (f b)).sum := by
  induction l with
  | nil => rfl
  | cons b l ih => rw [List.flatMap_cons, fieldsSize_append, ih, List.map_cons, List.sum_cons]

/-- A record has the size that is announced for it, also for a subgrid without cells. -/
theorem fieldsSize_writePFBinarySubvector (subvector : Subvector α) (s : Subgrid) :
    fieldsSize (writePFBinarySubvector subvector s) = sizeofPFBinarySubvector subvector s := by
  unfold writePFBinarySubvector sizeofPFBinarySubvector
  rw [foldl_add_eq fun _ => sizeofDouble, List.map_const', List.sum_replicate, nsmul_eq_mul, mul_comm _ sizeofDouble,
    fieldsSize_append]
  show _ + fieldsSize (List.map (fun c => Field.double _) _) = _
  rw [fieldsSize_doubles]
  rfl

theorem fieldsSize_header (bg : Background α) (numSubgrids p : ℤ) :
    fieldsSize (if p = 0 then fileHeader bg numSubgrids else []) = if p = 0 then 6 * sizeofDouble + 4 * sizeofInt else 0 := by
  split_ifs <;> rfl

/-- A process writes as many bytes as it announces. -/
theorem fieldsSize_writePFBinary (bg : Background α) (numSubgrids p : ℤ) (subvectors : List (Subvector α × Subgrid)) :
    fieldsSize (writePFBinary bg numSubgrids p subvectors) = writePFBinarySize p subvectors := by
  unfold writePFBinary writePFBinarySize
  rw [fieldsSize_append, fieldsSize_header, fieldsSize_flatMap,
    foldl_add_eq fun s : Subvector α × Subgrid => sizeofPFBinarySubvector s.1 s.2]
  simp only [fieldsSize_writePFBinarySubvector]

theorem ampsFFopen_eq (total : ℤ) (sizes : List ℤ) :
    ampsFFopen total sizes = (List.range sizes.length).map fun k => total + (sizes.take k).sum := by
  induction sizes generalizing total with
  | nil => rfl
  | cons size sizes ih =>
    rw [ampsFFopen, ih, List.length_cons, List.range_succ_eq_map, List.map_cons, List.map_map]
    simp [Function.comp_def, add_assoc]

/-- The sum of the sizes of the processes before process `n`. -/
def startOf (size : ℤ → ℤ) (n : ℤ) : ℤ := ((upto 0 n).map size).sum

theorem startOf_nonneg {size : ℤ → ℤ} (h : ∀ n, 0 ≤ size n) (n : ℤ) : 0 ≤ startOf size n := by
  apply List.sum_nonneg
  intro z hz
  obtain ⟨m, -, rfl⟩ := List.mem_map.mp hz
  exact h m

/-- Every process is given the sum of the sizes before it. -/
theorem ampsFFopen_upto (size : ℤ → ℤ) (numProcs : ℤ) :
    ampsFFopen 0 ((upto 0 numProcs).map size) = (upto 0 numProcs).map (startOf size) := by
  rw [ampsFFopen_eq, List.length_map, length_upto, upto_zero_eq numProcs, sub_zero, List.map_map, List.map_map]
  apply List.map_congr_left
  intro k hk
  rw [List.mem_range] at hk
  rw [zero_add, Function.comp_apply, startOf, upto_zero_eq, Int.toNat_natCast, List.map_map, ← List.map_take,
    List.take_range, min_eq_left hk.le]

/-- The subvectors of a vector on process `n`. -/
def rankSubvectors (vec : Subgrid → Subvector α) (subgrids : SubgridArray) (n : ℤ) : List (Subvector α × Subgrid) :=
  (getGridSubgrids subgrids n).map fun s => (vec s, s)

/-- Where each process starts to write. -/
def processStarts (vec : Subgrid → Subvector α) (subgrids : SubgridArray) (numProcs : ℤ) : List ℤ :=
  ampsFFopen 0 ((upto 0 numProcs).map fun n => writePFBinarySize n (rankSubvectors vec subgrids n))

/-- The subgrids in the order of the processes. -/
def rankOrder (subgrids : SubgridArray) (numProcs : ℤ) : SubgridArray :=
  (upto 0 numProcs).flatMap fun n => getGridSubgrids subgrids n

/-! ## Agreement -/

variable {nx ny nz p q r : ℤ}

theorem writePFBinarySize_blockAt (vec : Subgrid → Subvector α) (hfits : Fits (domainGrid nx ny nz) (p, q, r)) {k : ℕ}
    (hk : (k : ℤ) < p * q * r) :
    writePFBinarySize k (rankSubvectors vec (layoutBlocks (domainGrid nx ny nz) (p, q, r)) k) =
      (if k = 0 then 64 else 0) + (36 + 8 * volume (subgridShape nx ny nz p q r k)) := by
  have hp : 0 < p := hfits.pos .x
  have hq : 0 < q := hfits.pos .y
  have hr : 0 < r := hfits.pos .z
  have hx : 0 ≤ nx := hp.le.trans (hfits.le .x)
  have hy : 0 ≤ ny := hq.le.trans (hfits.le .y)
  have hz : 0 ≤ nz := hr.le.trans (hfits.le .z)
  have hshape := congrArg Prod.snd (record_blockAt (n := k) hp.le hq.le hr.le hx hy hz)
  unfold rankSubvectors writePFBinarySize
  rw [getGridSubgrids_layoutBlocks _ hp hq ⟨Int.natCast_nonneg k, hk⟩, List.map_singleton, List.foldl_cons, List.foldl_nil,
    sizeofPFBinarySubvector_eq _ (hfits.nonEmpty_blockAt _)]
  simp only [record] at hshape
  rw [hshape]
  simp only [Int.natCast_eq_zero]
  rfl

theorem sum_map_range (f : ℕ → ℤ) (k : ℕ) : ((List.range k).map f).sum = ∑ j ∈ Finset.range k, f j := by
  induction k with
  | zero => rfl
  | succ k ih =>
    rw [List.range_succ, List.map_append, List.sum_append, ih, Finset.sum_range_succ, List.map_singleton, List.sum_singleton]

theorem processStarts_eq (vec : Subgrid → Subvector α) (hfits : Fits (domainGrid nx ny nz) (p, q, r)) :
    processStarts vec (layoutBlocks (domainGrid nx ny nz) (p, q, r)) (p * q * r) =
      (List.range (p * q * r).toNat).map fun k =>
        dataOffset (subgridShape nx ny nz p q r) k - ((if k = 0 then 64 else 0) + 36) := by
  unfold processStarts
  rw [ampsFFopen_upto, upto_zero_eq, List.map_map]
  apply List.map_congr_left
  intro k hk
  rw [List.mem_range] at hk
  rw [Function.comp_apply, startOf, upto_zero_eq, Int.toNat_natCast, List.map_map, sum_map_range]
  have hsizes : ∀ j ∈ Finset.range k, ((fun n : ℤ => writePFBinarySize n (rankSubvectors vec
      (layoutBlocks (domainGrid nx ny nz) (p, q, r)) n)) ∘ fun n : ℕ => (n : ℤ)) j =
      (if j = 0 then 64 else 0) + (36 + 8 * volume (subgridShape nx ny nz p q r j)) := by
    intro j hj
    rw [Finset.mem_range] at hj
    exact writePFBinarySize_blockAt vec hfits (by omega)
  rw [Finset.sum_congr rfl hsizes, Finset.sum_add_distrib]
  unfold dataOffset
  rcases Nat.eq_zero_or_pos k with rfl | hpos
  · simp
  · rw [Finset.sum_ite_eq' (Finset.range k) 0 fun _ => (64 : ℤ), if_pos (Finset.mem_range.mpr hpos), if_neg hpos.ne']
    ring

theorem precalculateSubgridInfo_agrees (vec : Subgrid → Subvector α) (bg : Background α) (nx ny nz p q r : ℤ)
    (hp : 1 ≤ p) (hq : 1 ≤ q) (hr : 1 ≤ r) (hx : p ≤ nx) (hy : q ≤ ny) (hz : r ≤ nz) :
    ∃ subgrids, distributeUserGrid none (domainGrid nx ny nz) (p * q * r) p q r = some subgrids ∧
      (precalculateSubgridInfo nx ny nz p q r).subgridBeginIdxs.zip
        (precalculateSubgridInfo nx ny nz p q r).subgridShapes = (rankOrder subgrids (p * q * r)).map record ∧
      (∀ n, 0 ≤ n → n < p * q * r → fieldsSize (writePFBinary bg (p * q * r) n (rankSubvectors vec subgrids n)) =
        writePFBinarySize n (rankSubvectors vec subgrids n)) ∧
      (precalculateSubgridInfo nx ny nz p q r).subgridOffsets =
        List.zipWith (fun start n => start + (fieldsSize (if n = 0 then fileHeader bg (p * q * r) else []) + 9 * sizeofInt))
          (processStarts vec subgrids (p * q * r)) (upto 0 (p * q * r)) ∧
      writeDist (precalculateSubgridInfo nx ny nz p q r).subgridOffsets = processStarts vec subgrids (p * q * r) := by
  have hfits : Fits (domainGrid nx ny nz) (p, q, r) := ⟨Axis.forall.mpr ⟨hp, hq, hr⟩, Axis.forall.mpr ⟨hx, hy, hz⟩⟩
  refine ⟨_, distributeUserGrid_eq (domainGrid nx ny nz) (p, q, r), ?_, ?_, ?_, ?_⟩
  · rw [precalculateSubgridInfo_eq]
    unfold rankOrder
    rw [upto_zero_eq, List.flatMap_map, List.map_flatMap]
    show List.zip (List.map _ _) (List.map _ _) = _
    rw [List.zip_map', List.map_eq_flatMap]
    apply List.flatMap_congr
    intro k hk
    rw [List.mem_range] at hk
    rw [getGridSubgrids_layoutBlocks _ hp hq ⟨Int.natCast_nonneg k, by omega⟩, List.map_singleton,
      record_blockAt (by omega) (by omega) (by omega) (by omega) (by omega) (by omega)]
  · exact fun n _ _ => fieldsSize_writePFBinary bg (p * q * r) n _
  · rw [precalculateSubgridInfo_eq, processStarts_eq vec hfits, upto_zero_eq, List.zipWith_map, List.zipWith_self]
    apply List.map_congr_left
    intro k _
    simp only [Int.natCast_eq_zero]
    split_ifs with h0
    · show _ = _ - (64 + 36) + (64 + 36)
      ring
    · show _ = _ - (0 + 36) + (0 + 36)
      ring
  · rw [precalculateSubgridInfo_eq, processStarts_eq vec hfits]
    show List.mapIdx _ (List.map _ _) = _
    apply List.ext_getElem
    · simp
    · intro k hk _
      simp only [List.getElem_mapIdx, List.getElem_map, List.getElem_range]
      split_ifs <;> ring

theorem fiveByThree_agrees :
    ∃ subgrids, distributeUserGrid none (domainGrid 5 3 1) (2 * 3 * 1) 2 3 1 = some subgrids ∧
      (precalculateSubgridInfo 5 3 1 2 3 1).subgridBeginIdxs.zip (precalculateSubgridInfo 5 3 1 2 3 1).subgridShapes =
        (rankOrder subgrids (2 * 3 * 1)).map record :=
  (precalculateSubgridInfo_agrees (fun s => ⟨s, id⟩) ⟨0, 0, 0, 5, 3, 1, 1, 1, 1⟩ 5 3 1 2 3 1 (by decide) (by decide)
    (by decide) (by decide) (by decide) (by decide)).imp fun _ h => ⟨h.1, h.2.1⟩

end Simulator

end ParFlow.Pfb
