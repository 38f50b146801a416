import ParFlow.Pfb.DistFile
import ParFlow.Pfb.DistDefs

/-! The records of `WritePFSBinary` list what they should, with the sizes that are announced. The header counts the
processes where it should count the records. -/

namespace ParFlow.Pfb

open IntLoop

section Record

variable {α : Type} [LT α] [DecidableLT α] (fabs : α → α) (dropTolerance : α) (v : Subvector α) (s : Subgrid)

/-- The cells of a subgrid whose values are not dropped, in the order of the file. -/
def cellsAbove : List Cell := (cellList s).filter fun c => fabs (v.get c) > dropTolerance

/-- What is written for a subgrid. -/
def scatteredRecord : ScatteredRecord α where
  subgrid := s
  count := (cellsAbove fabs dropTolerance v s).length
  points := (cellsAbove fabs dropTolerance v s).map fun c => (c, v.get c)

theorem foldl_count {β : Type} (p : β → Prop) [DecidablePred p] (l : List β) (n : ℤ) :
    l.foldl (fun n b => if p b then n + 1 else n) n = n + (l.filter fun b => p b).length := by
  induction l generalizing n with
  | nil => exact (add_zero n).symm
  | cons b l ih =>
    rw [List.foldl_cons, ih]
    by_cases hb : p b
    · rw [if_pos hb, List.filter_cons, if_pos (decide_eq_true hb), List.length_cons]
      push_cast
      ring
    · rw [if_neg hb, List.filter_cons, if_neg (by simpa using hb)]

theorem flatMap_if {β γ : Type} (p : β → Prop) [DecidablePred p] (f : β → List γ) (l : List β) :
    (l.flatMap fun b => if p b then f b else []) = (l.filter fun b => p b).flatMap f := by
  induction l with
  | nil => rfl
  | cons b l ih =>
    rw [List.flatMap_cons, ih]
    by_cases hb : p b
    · rw [if_pos hb, List.filter_cons, if_pos (decide_eq_true hb), List.flatMap_cons]
    · rw [if_neg hb, List.filter_cons, if_neg (by simpa using hb), List.nil_append]

theorem countPFSBinarySubvector_eq :
    countPFSBinarySubvector fabs dropTolerance v s = (cellsAbove fabs dropTolerance v s).length := by
  unfold countPFSBinarySubvector cellsAbove
  simp only [boxLoopI1_cells, List.foldl_map, data_cellIndex]
  rw [foldl_count fun c => fabs (v.get c) > dropTolerance, zero_add]

theorem writePFSBinarySubvector_eq :
    writePFSBinarySubvector fabs dropTolerance v s = (scatteredRecord fabs dropTolerance v s).fields := by
  unfold writePFSBinarySubvector ScatteredRecord.fields scatteredRecord
  simp only [boxLoopI1_cells, List.flatMap_map, data_cellIndex, countPFSBinarySubvector_eq]
  rw [flatMap_if fun c => fabs (v.get c) > dropTolerance]
  rfl

theorem lists_scatteredRecord : ScatteredRecord.Lists fabs dropTolerance (scatteredRecord fabs dropTolerance v s) (v, s) := by
  refine ⟨rfl, ?_, ?_, ?_⟩
  · exact congrArg Nat.cast (List.length_map _).symm
  · apply List.Nodup.map
    · exact fun c d h => congrArg Prod.fst h
    · exact (cellList_nodup s).filter _
  · intro c w
    simp only [scatteredRecord, cellsAbove, List.mem_map, List.mem_filter, mem_cellList, decide_eq_true_eq, Prod.mk.injEq]
    constructor
    · rintro ⟨d, ⟨hd, habove⟩, rfl, rfl⟩
      exact ⟨hd, rfl, habove⟩
    · rintro ⟨hc, rfl, habove⟩
      exact ⟨c, ⟨hc, habove⟩, rfl, rfl⟩

omit [LT α] [DecidableLT α] in
theorem fieldsSize_fields (r : ScatteredRecord α) :
    fieldsSize r.fields = 9 * sizeofInt + (sizeofInt + r.points.length * (3 * sizeofInt + sizeofDouble)) := by
  have hpoints : fieldsSize (r.points.flatMap fun c => pointFields c.1 c.2) =
      r.points.length * (3 * sizeofInt + sizeofDouble) := by
    rw [fieldsSize_flatMap]
    show (r.points.map fun _ => 3 * sizeofInt + sizeofDouble).sum = _
    rw [List.map_const', List.sum_replicate, nsmul_eq_mul]
  unfold ScatteredRecord.fields
  rw [fieldsSize_append, ← hpoints]
  rfl

/-- A record has the size that is announced for it. -/
theorem fieldsSize_writePFSBinarySubvector :
    fieldsSize (writePFSBinarySubvector fabs dropTolerance v s) = sizeofPFSBinarySubvector fabs dropTolerance v s := by
  rw [writePFSBinarySubvector_eq, fieldsSize_fields]
  unfold sizeofPFSBinarySubvector
  rw [countPFSBinarySubvector_eq]
  congr 4
  exact List.length_map _

end Record

/-! ## The file -/

section File

variable {α : Type} [LT α] [DecidableLT α] (fabs : α → α) (dropTolerance : α) (background : Background α)
  (subgrids : SubgridArray) (vec : Subgrid → Subvector α) {P : ℤ}

theorem fieldsSize_writePFSBinary (P p : ℤ) (subvectors : List (Subvector α × Subgrid)) :
    fieldsSize (writePFSBinary fabs dropTolerance background P p subvectors) =
      writePFSBinarySize fabs dropTolerance p subvectors := by
  unfold writePFSBinary writePFSBinarySize
  rw [fieldsSize_append, fieldsSize_header, fieldsSize_flatMap,
    foldl_add_eq fun s : Subvector α × Subgrid => sizeofPFSBinarySubvector fabs dropTolerance s.1 s.2]
  simp only [fieldsSize_writePFSBinarySubvector]

omit [LT α] [DecidableLT α] in
theorem length_rankParts (P : ℤ) : ((rankParts subgrids vec P).length : ℤ) = numSubgridsAllReduce subgrids P := by
  unfold rankParts rankOrder numSubgridsAllReduce
  rw [List.length_map, List.length_flatMap, Nat.cast_list_sum, List.map_map]
  rfl

/-- One header, and a record for each subgrid. -/
theorem writePFSBinaryFile_eq (hP : 0 < P) : writePFSBinaryFile fabs dropTolerance background subgrids vec P =
    fileHeader background P ++
      ((rankParts subgrids vec P).map fun s => scatteredRecord fabs dropTolerance s.1 s.2).flatMap (·.fields) := by
  have hrecords : ((rankParts subgrids vec P).map fun s => scatteredRecord fabs dropTolerance s.1 s.2).flatMap (·.fields) =
      (upto 0 P).flatMap fun p => (rankSubvectors vec subgrids p).flatMap
        fun s => writePFSBinarySubvector fabs dropTolerance s.1 s.2 := by
    unfold rankParts rankOrder rankSubvectors
    simp only [List.flatMap_map, List.flatMap_assoc, writePFSBinarySubvector_eq]
  have hrest : (upto 1 P).flatMap (fun p => writePFSBinary fabs dropTolerance background P p (rankSubvectors vec subgrids p)) =
      (upto 1 P).flatMap fun p => (rankSubvectors vec subgrids p).flatMap
        fun s => writePFSBinarySubvector fabs dropTolerance s.1 s.2 := by
    apply List.flatMap_congr
    intro p hp
    rw [mem_upto] at hp
    unfold writePFSBinary
    rw [if_neg (by omega), List.nil_append]
  rw [hrecords]
  unfold writePFSBinaryFile
  rw [upto_cons hP, zero_add, List.flatMap_cons, List.flatMap_cons, hrest, ← List.append_assoc]
  rfl

omit [LT α] [DecidableLT α] in
/-- The number in a header can be read off the file. -/
theorem fileHeader_count {m n : ℤ} {rest rest' : List (Field α)}
    (h : fileHeader background m ++ rest = fileHeader background n ++ rest') : m = n := by
  have hlast := congrArg (fun l : List (Field α) => l[9]?) h
  simpa [fileHeader] using hlast

theorem isScatteredFile_iff (hP : 0 < P) : IsScatteredFile fabs dropTolerance background (rankParts subgrids vec P)
    (writePFSBinaryFile fabs dropTolerance background subgrids vec P) ↔ numSubgridsAllReduce subgrids P = P := by
  rw [writePFSBinaryFile_eq fabs dropTolerance background subgrids vec hP, ← length_rankParts subgrids vec P]
  constructor
  · rintro ⟨records, hfile, hlists⟩
    rw [← hlists.length_eq]
    exact (fileHeader_count background hfile).symm
  · intro hcount
    refine ⟨(rankParts subgrids vec P).map fun s => scatteredRecord fabs dropTolerance s.1 s.2, ?_, ?_⟩
    · rw [List.length_map, hcount]
    · rw [List.forall₂_map_left_iff, List.forall₂_same]
      exact fun s _ => lists_scatteredRecord fabs dropTolerance s.1 s.2

theorem writesScattered_iff (hP : 0 < P) : WritesScattered fabs dropTolerance background subgrids vec P ↔
    numSubgridsAllReduce subgrids P = P := by
  rw [← isScatteredFile_iff fabs dropTolerance background subgrids vec hP]
  constructor
  · exact fun h => h.file
  · intro h
    exact ⟨fun s _ => fieldsSize_writePFSBinarySubvector fabs dropTolerance (vec s) s,
      fun p => fieldsSize_writePFSBinary fabs dropTolerance background P p _, h⟩

end File

/-! ## Two subgrids on one process -/

/-- A row of two cells and the cell behind it. -/
def twoOnOne : SubgridArray := [newSubgrid 0 0 0 2 1 1 0 0 0 0, newSubgrid 2 0 0 1 1 1 0 0 0 0]

/-- The values are the distances from the second cell. -/
def distanceVector (s : Subgrid) : Subvector ℤ := ⟨s, fun i => i + s.ix - 1⟩

def threeCells : Background ℤ := ⟨0, 0, 0, 3, 1, 1, 1, 1, 1⟩

theorem twoOnOne_iff : WritesScattered abs 0 threeCells twoOnOne distanceVector 1 ↔ numSubgridsAllReduce twoOnOne 1 = 1 :=
  writesScattered_iff abs 0 threeCells twoOnOne distanceVector (by decide)

/-- The header says one and two records follow. -/
theorem twoOnOne_not_writesScattered : ¬ WritesScattered abs 0 threeCells twoOnOne distanceVector 1 := by
  intro h
  have hcount := (isScatteredFile_iff abs 0 threeCells twoOnOne distanceVector (by decide)).mp h.file
  exact absurd hcount (by decide)

end ParFlow.Pfb
