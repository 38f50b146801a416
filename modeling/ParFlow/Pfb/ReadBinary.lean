import ParFlow.Pfb.ReadBinaryDefs

/-! `ReadPFBinary` on the files of `WritePFBinary`: every process finds its own segment and puts the values of its
cells back, whatever the ghost layers of the vector it reads into. -/

namespace ParFlow.Pfb

open IntLoop ByteFile TextScan TextStream NumberText PointLoop

instance (n : ℤ) : Decidable (IsInt n) := inferInstanceAs (Decidable (_ ∧ _))

instance (s : Subgrid) : Decidable (IntRecord s) := inferInstanceAs (Decidable (_ ∧ _ ∧ _))

/-! ## Records -/

section Record

variable {α : Type} {enc : Encoding α} {source target result : Subvector α} {s : Subgrid}

theorem ampsReads_int {n : ℤ} (hn : IsInt n) : Reads (ampsReadInt enc) (enc.field (.int n)) n := reads_int hn

/-- Four bytes whose value does not matter. -/
theorem ampsReads_skip (v : ℤ) : Reads (ampsReadInt enc) (enc.field (.int v)) (enc.readInt (enc.int v)) :=
  (reads_takeBytes (enc.length_int v)).map enc.readInt

theorem ampsReads_double (w : α) : Reads (ampsReadDouble enc) (enc.field (.double w)) w := reads_double w

/-- The values of the source at the cells of a list, put into data over a data space. -/
def copyData (source : Subvector α) (ds : Subgrid) (l : List Cell) (data : ℤ → α) : ℤ → α :=
  l.foldl (fun d c => Function.update d (cellIndex ds c) (source.get c)) data

def copyCells (source target : Subvector α) (s : Subgrid) : Subvector α :=
  { target with data := copyData source target.dataSpace (cellList s) target.data }

/-- One round of the loop that reads. -/
def readRound (enc : Encoding α) (start : ℤ) (v : Subvector α) (c : Cell × ℤ) : Reader (Subvector α) := do
  let w ← ampsReadDouble enc
  pure { v with data := Function.update v.data (start + c.2) w }

theorem foldl_copy (source v : Subvector α) (ds : Subgrid) (l : List Cell) :
    l.foldl (fun v c => { v with data := Function.update v.data (cellIndex ds c) (source.get c) }) v =
      { v with data := copyData source ds l v.data } := by
  induction l generalizing v with
  | nil => rfl
  | cons c l ih => exact ih _

theorem reads_data (source target : Subvector α) (s : Subgrid) :
    Reads ((boxLoopI1 s.ix s.iy s.iz s.nx s.ny s.nz 0 target.dataSpace.nx target.dataSpace.ny 1 1 1).foldlM
        (readRound enc (subvectorEltIndex target.dataSpace s.ix s.iy s.iz)) target)
      (enc.bytes ((cellList s).map fun c => .double (source.get c))) (copyCells source target s) := by
  let start := subvectorEltIndex target.dataSpace s.ix s.iy s.iz
  have hround : ∀ (c : Cell × ℤ) (v : Subvector α), Reads (readRound enc start v c) (enc.field (.double (source.get c.1)))
      { v with data := Function.update v.data (start + c.2) (source.get c.1) } := by
    intro c v
    have h : Reads (ampsReadDouble enc) (enc.field (.double (source.get c.1))) (source.get c.1) := ampsReads_double _
    exact h.map fun w => ({ v with data := Function.update v.data (start + c.2) w } : Subvector α)
  have hloop : ∀ l : List (Cell × ℤ), Reads (l.foldlM (readRound enc start) target)
      (l.flatMap fun c => enc.field (.double (source.get c.1)))
      (l.foldl (fun v c => { v with data := Function.update v.data (start + c.2) (source.get c.1) }) target) := fun l =>
    Reads.foldlM (fun _ => True) (fun c _ v _ => hround c v) (fun _ _ _ _ => trivial) trivial
  have h := hloop (boxLoopI1 s.ix s.iy s.iz s.nx s.ny s.nz 0 target.dataSpace.nx target.dataSpace.ny 1 1 1)
  simp only [boxLoopI1_cells, List.flatMap_map, List.foldl_map, start, add_sub_cancel] at h
  rw [foldl_copy] at h
  unfold Encoding.bytes
  rw [boxLoopI1_cells, List.flatMap_map]
  exact h

theorem reads_record (source target : Subvector α) (hs : IntRecord s) : Reads (readPFBinarySubvector enc target s)
    (enc.bytes (writePFBinarySubvector source s)) (copyCells source target s) := by
  obtain ⟨⟨h₁, h₂, h₃⟩, ⟨h₄, h₅, h₆⟩, h₇, h₈, h₉⟩ := hs
  rw [writePFBinarySubvector_eq, enc.bytes_append, subgridHeader]
  simp only [enc.bytes_cons, List.append_assoc]
  unfold readPFBinarySubvector
  exact (ampsReads_int h₁).bind ((ampsReads_int h₂).bind ((ampsReads_int h₃).bind ((ampsReads_int h₄).bind
    ((ampsReads_int h₅).bind ((ampsReads_int h₆).bind ((ampsReads_int h₇).bind ((ampsReads_int h₈).bind
      ((ampsReads_int h₉).bind (reads_data source target s)))))))))

/-- The result has the values of the source at the cells of the subgrid, and those of the target everywhere else. -/
structure Restored (source target result : Subvector α) (s : Subgrid) : Prop where
  dataSpace_eq : result.dataSpace = target.dataSpace
  interior : ∀ c ∈ s.cells, result.get c = source.get c
  ghost : ∀ c ∈ target.dataSpace.cells, c ∉ s.cells → result.get c = target.get c
  outside : ∀ i, (∀ c ∈ s.cells, cellIndex target.dataSpace c ≠ i) → result.data i = target.data i

theorem restored_copyCells (source : Subvector α) (hin : s.cells ⊆ target.dataSpace.cells) :
    Restored source target (copyCells source target s) s := by
  have hcell : ∀ c ∈ target.dataSpace.cells,
      (copyCells source target s).get c = if c ∈ cellList s then source.get c else target.get c := by
    intro c hc
    have hds : ∀ c ∈ cellList s, c ∈ target.dataSpace.cells := fun c hc => hin (mem_cellList.mp hc)
    exact foldl_cells (v := fun c _ => source.get c) (cellList_nodup s) hds (fun _ _ _ _ _ _ => rfl) target.data hc
  refine ⟨rfl, ?_, ?_, ?_⟩
  · intro c hc
    rw [hcell c (hin hc), if_pos (mem_cellList.mpr hc)]
  · intro c hc hs
    rw [hcell c hc, if_neg (mt mem_cellList.mp hs)]
  · intro i hi
    apply foldl_update_of_notMem
    intro hmem
    obtain ⟨c, hc, hci⟩ := List.mem_map.mp hmem
    exact hi c (mem_cellList.mp hc) hci

end Record

/-! ## A process -/

section Rank

variable {α : Type} {enc : Encoding α} {lower spacing : α × α × α} {subgrids : SubgridArray}
  {source target : Subgrid → Subvector α} {numProcs n : ℤ}

theorem reads_header (bg : Background α) (numSubgrids : ℤ) :
    Reads (readPFBinaryHeader enc) (enc.bytes (fileHeader bg numSubgrids)) () := by
  unfold readPFBinaryHeader fileHeader
  simp only [enc.bytes_cons]
  exact (ampsReads_double _).bind ((ampsReads_double _).bind ((ampsReads_double _).bind ((ampsReads_skip _).bind
    ((ampsReads_skip _).bind ((ampsReads_skip _).bind ((ampsReads_double _).bind ((ampsReads_double _).bind
      ((ampsReads_double _).bind ((ampsReads_skip _).bind (Reads.pure ()))))))))))

/-- A process reads what the same process has written. -/
theorem reads_rank (bg : Background α) (numSubgrids : ℤ) (hint : ∀ s ∈ subgrids, IntRecord s) :
    Reads (readPFBinaryRank enc n (rankSubvectors target subgrids n))
      (enc.bytes (writePFBinary bg numSubgrids n (rankSubvectors source subgrids n)))
      ((getGridSubgrids subgrids n).map fun s => copyCells (source s) (target s) s) := by
  have hrecords : Reads ((rankSubvectors target subgrids n).mapM fun s => readPFBinarySubvector enc s.1 s.2)
      (enc.bytes ((rankSubvectors source subgrids n).flatMap fun s => writePFBinarySubvector s.1 s.2))
      ((getGridSubgrids subgrids n).map fun s => copyCells (source s) (target s) s) := by
    unfold rankSubvectors Encoding.bytes
    rw [List.mapM_map, List.flatMap_map, List.flatMap_assoc]
    apply Reads.mapM
    intro s hs
    exact reads_record (source s) (target s) (hint s (List.mem_of_mem_filter hs))
  unfold readPFBinaryRank writePFBinary
  rw [enc.bytes_append]
  by_cases h0 : n = 0
  · rw [if_pos h0, if_pos h0]
    exact (reads_header bg numSubgrids).bind hrecords
  · rw [if_neg h0, if_neg h0]
    exact hrecords

end Rank

/-! ## The `.dist` file -/

section Dist

variable {size : ℤ → ℤ} {numProcs n : ℤ}

theorem foldl_round (sizes : List ℤ) (st : Gather) :
    (sizes.foldl Gather.round st).sent = st.sent ++ ampsFFopen st.total sizes ∧
      (sizes.foldl Gather.round st).dfile = st.dfile ++ (ampsFFopen st.total sizes).flatMap distLine := by
  induction sizes generalizing st with
  | nil => exact ⟨(List.append_nil _).symm, (List.append_nil _).symm⟩
  | cons size sizes ih =>
    obtain ⟨hsent, hdfile⟩ := ih (st.round size)
    rw [List.foldl_cons, hsent, hdfile, ampsFFopen, List.flatMap_cons, ← List.append_assoc]
    exact ⟨List.append_assoc _ _ _, rfl⟩

/-- The starts that are sent stand in the file, behind the one of process 0. -/
theorem ampsFFopenWrite_eq (size : ℤ) (sizes : List ℤ) :
    0 :: (ampsFFopenWrite size sizes).sent = ampsFFopen 0 (size :: sizes) ∧
      (ampsFFopenWrite size sizes).dfile = (ampsFFopen 0 (size :: sizes)).flatMap distLine := by
  obtain ⟨hsent, hdfile⟩ := foldl_round sizes ⟨size, [], utf8 "0\n".toList⟩
  unfold ampsFFopenWrite
  rw [hsent, hdfile, ampsFFopen, zero_add]
  exact ⟨rfl, rfl⟩

/-- White space, the number of a line and the end of the line. -/
theorem takeInt_line {start : ℤ} (hstart : 0 ≤ start) {blanks : List UInt8} (hblanks : ∀ b ∈ blanks, isSpace b)
    (rest : List UInt8) : takeInt (blanks ++ (distLine start ++ rest)) = some (start, 10 :: rest) := by
  obtain ⟨k, rfl⟩ := Int.eq_ofNat_of_zero_le hstart
  have hnewline : utf8 ['\n'] = [10] := by decide
  have hsign : signText (k : ℤ) = [] := if_neg (not_lt.mpr (Int.natCast_nonneg k))
  have htext : distLine k ++ rest = utf8 (decimal k) ++ 10 :: rest := by
    rw [distLine, intText, hsign, List.nil_append, utf8_append, hnewline, Int.natAbs_natCast, List.append_assoc]
    rfl
  have hend : BlankAhead (10 :: rest) := by
    intro b hb
    rw [← Option.some.inj hb]
    rfl
  rw [htext, ← List.append_assoc]
  exact scans_takeInt k hblanks (10 :: rest) hend

theorem lineEnd_isSpace : ∀ b ∈ ([10] : List UInt8), isSpace b := by
  intro b hb
  rw [List.mem_singleton.mp hb]
  rfl

/-- The lines are read back, with white space before the first one or without. -/
theorem foldlM_readStart (ps : List ℤ) (start : ℤ → ℤ) (hstart : ∀ p ∈ ps, 0 ≤ start p) {blanks : List UInt8}
    (hblanks : ∀ b ∈ blanks, isSpace b) (acc : List ℤ) : ∃ rest,
      ps.foldlM readStart acc (blanks ++ (ps.map start).flatMap distLine) = some (acc ++ ps.map start, rest) := by
  induction ps generalizing blanks acc with
  | nil =>
    refine ⟨blanks, ?_⟩
    rw [List.map_nil, List.flatMap_nil, List.append_nil, List.append_nil]
    rfl
  | cons p ps ih =>
    obtain ⟨rest, hrest⟩ := ih (fun q hq => hstart q (List.mem_cons_of_mem p hq)) lineEnd_isSpace (acc ++ [start p])
    refine ⟨rest, ?_⟩
    have hline := takeInt_line (hstart p List.mem_cons_self) hblanks ((ps.map start).flatMap distLine)
    have hround : readStart acc p (blanks ++ (distLine (start p) ++ (ps.map start).flatMap distLine)) =
        some (acc ++ [start p], 10 :: (ps.map start).flatMap distLine) := by
      unfold readStart
      rw [bind_eq hline]
      rfl
    have hacc : acc ++ start p :: ps.map start = acc ++ [start p] ++ ps.map start := List.append_cons _ _ _
    rw [List.foldlM_cons, List.map_cons, List.flatMap_cons, bind_eq hround, hacc]
    exact hrest

/-- What process 0 reads is what it has written. -/
theorem ampsFFopenRead_eq (hsize : ∀ n, 0 ≤ size n) (h : 0 < numProcs) : ∃ rest,
    ampsFFopenRead numProcs (((upto 0 numProcs).map (startOf size)).flatMap distLine) =
      some ((upto 0 numProcs).map (startOf size), rest) := by
  have hstart : startOf size 0 = 0 := rfl
  have hnone : ∀ b ∈ ([] : List UInt8), isSpace b := fun b hb => absurd hb List.not_mem_nil
  obtain ⟨rest, hrest⟩ := foldlM_readStart (upto 1 numProcs) (startOf size) (fun p _ => startOf_nonneg hsize p)
    lineEnd_isSpace [0]
  have hfirst := takeInt_line le_rfl hnone (((upto 1 numProcs).map (startOf size)).flatMap distLine)
  refine ⟨rest, ?_⟩
  rw [List.nil_append] at hfirst
  rw [upto_cons h, zero_add, List.map_cons, List.flatMap_cons, hstart]
  unfold ampsFFopenRead
  rw [bind_eq hfirst]
  exact hrest

end Dist

/-! ## The file -/

section Disk

variable {α : Type} (enc : Encoding α) (lower spacing : α × α × α) (subgrids : SubgridArray)
  (source : Subgrid → Subvector α) (numProcs : ℤ)

/-- The bytes that process `n` writes. -/
def rankBytes (n : ℤ) : List UInt8 := enc.bytes (rankFields lower spacing subgrids source numProcs n)

/-- Where the bytes of process `n` start when all processes write one behind the other. -/
def trueStart (n : ℤ) : ℤ := startOf (fun m => ((rankBytes enc lower spacing subgrids source numProcs m).length : ℤ)) n

theorem length_rankBytes (n : ℤ) :
    ((rankBytes enc lower spacing subgrids source numProcs n).length : ℤ) = rankSize subgrids source n := by
  unfold rankBytes Encoding.bytes
  rw [List.flatMap_def, enc.length_fields]
  exact fieldsSize_writePFBinary _ _ _ _

theorem trueStart_eq : trueStart enc lower spacing subgrids source numProcs = startOf (rankSize subgrids source) := by
  funext n
  unfold trueStart
  simp only [length_rankBytes]

include enc lower spacing in
theorem rankSize_nonneg (n : ℤ) : 0 ≤ rankSize subgrids source n := by
  rw [← length_rankBytes enc lower spacing subgrids source 0]
  exact Int.natCast_nonneg _

/-- The file is what the processes write, one after the other, in whatever order the writes are made. -/
theorem writePFBinaryDisk_file (disk : Disk) (filename : List Char) {ws : List (ℕ × List UInt8)}
    (hws : ws.Perm (allWrites enc lower spacing subgrids source numProcs)) :
    writePFBinaryDisk subgrids source numProcs disk filename ws filename =
      some ((upto 0 numProcs).flatMap (rankBytes enc lower spacing subgrids source numProcs)) := by
  rw [allWrites_placed] at hws
  obtain ⟨hsize, hbytes⟩ := writeAll_placed hws
  unfold writePFBinaryDisk
  rw [Function.update_self, hsize, hbytes, ← List.flatMap_def, List.flatMap_assoc]
  rfl

variable {numProcs} in
/-- Process 0 sends the positions where the others write. -/
theorem openPFBinary_sent (h : 0 < numProcs) :
    0 :: (openPFBinary subgrids source numProcs).sent = processStarts source subgrids numProcs ∧
      (openPFBinary subgrids source numProcs).dfile = (processStarts source subgrids numProcs).flatMap distLine := by
  have hstarts : processStarts source subgrids numProcs =
      ampsFFopen 0 (rankSize subgrids source 0 :: (upto 1 numProcs).map (rankSize subgrids source)) := by
    unfold processStarts
    rw [upto_cons h]
    rfl
  rw [hstarts]
  exact ampsFFopenWrite_eq _ _

theorem processStarts_eq_trueStart : processStarts source subgrids numProcs =
    (upto 0 numProcs).map (trueStart enc lower spacing subgrids source numProcs) := by
  rw [trueStart_eq]
  exact ampsFFopen_upto _ _

variable {numProcs} in
theorem writePFBinaryDisk_dist (disk : Disk) (filename : List Char) (ws : List (ℕ × List UInt8)) (h : 0 < numProcs) :
    writePFBinaryDisk subgrids source numProcs disk filename ws (distFilename filename) =
      some ((processStarts source subgrids numProcs).flatMap distLine) := by
  have hne : distFilename filename ≠ filename := by
    intro heq
    have hlen := congrArg List.length heq
    rw [distFilename, List.length_append] at hlen
    exact absurd hlen (by simp)
  unfold writePFBinaryDisk
  rw [Function.update_of_ne hne, Function.update_self, (openPFBinary_sent subgrids source h).2]

variable {enc lower spacing subgrids source numProcs}

theorem pfbFilename_ending (filePrefix fileSuffix : List Char) :
    ¬ ((pfbFilename filePrefix fileSuffix "pfb".toList).length < 4 ∨
      (pfbFilename filePrefix fileSuffix "pfb".toList).drop
        ((pfbFilename filePrefix fileSuffix "pfb".toList).length - 4) ≠ ".pfb".toList) := by
  have hsplit : pfbFilename filePrefix fileSuffix "pfb".toList =
      (filePrefix ++ '.' :: fileSuffix) ++ ".pfb".toList := by
    unfold pfbFilename
    rw [List.append_assoc, List.cons_append]
    rfl
  have hfour : ".pfb".toList.length = 4 := by decide
  rw [hsplit, List.length_append, hfour, Nat.add_sub_cancel, List.drop_left]
  rintro (h | h)
  · omega
  · exact h rfl

/-- A process reads its part of a file, when the start that it is given is where that part begins. -/
theorem readPFBinary_eq {filename : List Char} {disk : Disk} {n start : ℤ} {starts : List ℤ}
    {dist rest before bytes after : List UInt8} {subvectors : List (Subvector α × Subgrid)} {result : List (Subvector α)}
    (hname : ¬ (filename.length < 4 ∨ filename.drop (filename.length - 4) ≠ ".pfb".toList))
    (hdist : disk (distFilename filename) = some dist) (hstarts : ampsFFopenRead numProcs dist = some (starts, rest))
    (hget : starts[n.toNat]? = some start) (hfile : disk filename = some (before ++ (bytes ++ after)))
    (hbefore : (before.length : ℤ) = start) (hread : Reads (readPFBinaryRank enc n subvectors) bytes result) :
    readPFBinary enc filename disk numProcs n subvectors = some (result, before.length + bytes.length) := by
  have hdrop : (before ++ (bytes ++ after)).drop start.toNat = bytes ++ after := by
    rw [← hbefore, Int.toNat_natCast, List.drop_left]
  have hpos : (before ++ (bytes ++ after)).length - after.length = before.length + bytes.length := by
    rw [List.length_append, List.length_append]
    omega
  unfold readPFBinary
  rw [if_neg hname]
  simp only [hdist, hstarts, hget, hfile, hdrop, hread after, hpos, Option.bind_eq_bind, Option.bind_some]

/-- The bytes of the file before, of and behind a process. -/
theorem split_file {n : ℤ} (bytes : ℤ → List UInt8) (h0 : 0 ≤ n) (hn : n < numProcs) : ∃ before after,
    (upto 0 numProcs).flatMap bytes = before ++ (bytes n ++ after) ∧
      (before.length : ℤ) = startOf (fun m => ((bytes m).length : ℤ)) n := by
  refine ⟨(upto 0 n).flatMap bytes, (upto (n + 1) numProcs).flatMap bytes, ?_, ?_⟩
  · rw [← upto_append h0 hn.le, upto_cons hn, List.flatMap_append, List.flatMap_cons]
  · unfold startOf
    rw [List.length_flatMap, Nat.cast_list_sum, List.map_map]
    rfl

end Disk

/-! ## The round trip -/

section RoundTrip

variable {α : Type}

theorem readPFBinary_writePFBinary (enc : Encoding α) (lower spacing : α × α × α) (subgrids : SubgridArray)
    (source target : Subgrid → Subvector α) (numProcs : ℤ) (disk : Disk) (filePrefix fileSuffix : List Char)
    (ws : List (ℕ × List UInt8)) (hint : ∀ s ∈ subgrids, IntRecord s)
    (hin : ∀ s ∈ subgrids, s.cells ⊆ (target s).dataSpace.cells)
    (hws : ws.Perm (allWrites enc lower spacing subgrids source numProcs)) :
    let filename := pfbFilename filePrefix fileSuffix "pfb".toList
    let written := writePFBinaryDisk subgrids source numProcs disk filename ws
    let start := trueStart enc lower spacing subgrids source numProcs
    (∀ s ∈ subgrids, ((enc.bytes (writePFBinarySubvector (source s) s)).length : ℤ) =
      sizeofPFBinarySubvector (source s) s) ∧
    ∀ n, 0 ≤ n → n < numProcs →
      0 :: (openPFBinary subgrids source numProcs).sent = (upto 0 numProcs).map start ∧
      written (distFilename filename) = some (((upto 0 numProcs).map start).flatMap distLine) ∧
      ∃ result pos, readPFBinary enc filename written numProcs n (rankSubvectors target subgrids n) = some (result, pos) ∧
        (pos : ℤ) = start n + (rankBytes enc lower spacing subgrids source numProcs n).length ∧
        List.Forall₂ (fun s v => Restored (source s) (target s) v s) (getGridSubgrids subgrids n) result := by
  intro filename written start
  constructor
  · intro s _
    unfold Encoding.bytes
    rw [List.flatMap_def, enc.length_fields]
    exact fieldsSize_writePFBinarySubvector _ _
  · intro n h0 hn
    have hsent := (openPFBinary_sent subgrids source (h0.trans_lt hn)).1
    have hdist := writePFBinaryDisk_dist subgrids source disk filename ws (h0.trans_lt hn)
    rw [processStarts_eq_trueStart enc lower spacing subgrids source] at hsent hdist
    refine ⟨hsent, hdist, (getGridSubgrids subgrids n).map fun s => copyCells (source s) (target s) s, ?_⟩
    -- what process 0 hands out, and what stands in the file before, at and behind this process
    obtain ⟨rest, hstarts⟩ := ampsFFopenRead_eq (rankSize_nonneg enc lower spacing subgrids source) (h0.trans_lt hn)
    rw [← trueStart_eq enc lower spacing subgrids source numProcs] at hstarts
    obtain ⟨before, after, hfile, hbefore⟩ := split_file (rankBytes enc lower spacing subgrids source numProcs) h0 hn
    have hwritten := writePFBinaryDisk_file enc lower spacing subgrids source numProcs disk filename hws
    rw [hfile] at hwritten
    have hget : ((upto 0 numProcs).map start)[n.toNat]? = some (start n) := by
      rw [upto_zero_eq, List.map_map, List.getElem?_map, List.getElem?_range (by omega), Option.map_some,
        Function.comp_apply, Int.toNat_of_nonneg h0]
    have hread : Reads (readPFBinaryRank enc n (rankSubvectors target subgrids n))
        (rankBytes enc lower spacing subgrids source numProcs n)
        ((getGridSubgrids subgrids n).map fun s => copyCells (source s) (target s) s) := reads_rank _ _ hint
    refine ⟨_, readPFBinary_eq (pfbFilename_ending filePrefix fileSuffix) hdist hstarts hget hwritten hbefore hread, ?_, ?_⟩
    · rw [Nat.cast_add, hbefore]
      rfl
    · rw [List.forall₂_map_right_iff, List.forall₂_same]
      exact fun s hs => restored_copyCells (source s) (hin s (List.mem_of_mem_filter hs))

/-- Layers of ghost cells around a subgrid. -/
theorem cells_subset_ghostSpace (s : Subgrid) {numGhost : ℤ} (h : 0 ≤ numGhost) : s.cells ⊆ (ghostSpace s numGhost).cells := by
  intro c hc
  rw [Subregion.mem_cells_iff] at hc ⊢
  simp only [ghostSpace, newSubgrid]
  omega

/-- Two subgrids on process 0 and one on process 1. -/
def threeSubgrids : SubgridArray :=
  [newSubgrid 0 0 0 2 1 1 0 0 0 0, newSubgrid 2 0 0 1 1 1 0 0 0 1, newSubgrid 0 1 0 3 1 1 0 0 0 0]

/-- With one layer of ghost cells; every value tells its index. -/
def numberedVector (s : Subgrid) : Subvector Word := ⟨ghostSpace s 1, fun i _ => UInt8.ofNat i.toNat⟩

def zeroVector (s : Subgrid) : Subvector Word := ⟨ghostSpace s 2, fun _ => 0⟩

/-- The last write is made first. -/
theorem threeSubgrids_restored : ∃ result pos,
    readPFBinary bigEndian (pfbFilename "run.out".toList "press".toList "pfb".toList)
      (writePFBinaryDisk threeSubgrids numberedVector 2 (fun _ => none)
        (pfbFilename "run.out".toList "press".toList "pfb".toList)
        (allWrites bigEndian (0, 0, 0) (0, 0, 0) threeSubgrids numberedVector 2).reverse) 2 0
      (rankSubvectors zeroVector threeSubgrids 0) = some (result, pos) ∧
    List.Forall₂ (fun s v => Restored (numberedVector s) (zeroVector s) v s) (getGridSubgrids threeSubgrids 0) result := by
  have h := readPFBinary_writePFBinary bigEndian (0, 0, 0) (0, 0, 0) threeSubgrids numberedVector zeroVector 2 (fun _ => none)
    "run.out".toList "press".toList _ (by decide) (fun s _ => cells_subset_ghostSpace s (by decide)) (List.reverse_perm _)
  obtain ⟨-, -, result, pos, hread, -, hrestored⟩ := h.2 0 (by decide) (by decide)
  exact ⟨result, pos, hread, hrestored⟩

end RoundTrip

end ParFlow.Pfb
