import ParFlow.Pfb.RoundTrip

/-! The chunks of one axis: which of them a part of the axis needs, and what is cut off again. -/

namespace ParFlow.Pfb

open IntLoop NdArray

/-- The boundaries `0 = S 0 < S 1 < … < S P = n` of chunks. -/
structure Boundaries (S : ℕ → ℤ) (P : ℕ) (n : ℤ) : Prop where
  zero : S 0 = 0
  last : S P = n
  lt : ∀ i < P, S i < S (i + 1)

/-- The coordinates of the chunks. -/
def chunkCoords (S : ℕ → ℤ) (P : ℕ) : List (List ℤ) := (List.range P).map fun i => upto (S i) (S (i + 1))

theorem npUnique_upto (a b : ℤ) : npUnique (upto a b) = upto a b := by
  unfold npUnique
  rw [List.toFinset_sort _ (upto_nodup a b)]
  exact (upto_pairwise_lt a b).imp le_of_lt

theorem findIdx?_upto {a b x : ℤ} (hx : a ≤ x ∧ x < b) : (upto a b).findIdx? (· = x) = some (x - a).toNat := by
  rw [List.findIdx?_eq_some_iff_getElem]
  refine ⟨by rw [length_upto]; omega, ?_, ?_⟩
  · simp only [upto, List.getElem_map, List.getElem_range, decide_eq_true_eq]
    omega
  · intro j hj
    simp only [upto, List.getElem_map, List.getElem_range, decide_eq_true_eq]
    omega

theorem findIdx?_upto_none {a b x : ℤ} (hx : b ≤ x) : (upto a b).findIdx? (· = x) = none := by
  rw [List.findIdx?_eq_none_iff]
  intro y hy
  rw [mem_upto] at hy
  rw [decide_eq_false_iff_not]
  omega

theorem npMin_upto {a b : ℤ} (h : a < b) : npMin (upto a b) = .ok a := by
  have hmin : (upto a b).min? = some a := by
    rw [List.min?_eq_some_iff]
    refine ⟨mem_upto.mpr ⟨le_rfl, h⟩, ?_⟩
    intro x hx
    exact (mem_upto.mp hx).1
  unfold npMin
  rw [hmin]

namespace Boundaries

variable {S : ℕ → ℤ} {P : ℕ} {n x : ℤ} (h : Boundaries S P n)

include h

theorem le {i j : ℕ} (hij : i ≤ j) (hj : j ≤ P) : S i ≤ S j := by
  induction j, hij using Nat.le_induction with
  | base => exact le_rfl
  | succ j _ ih => exact (ih (by omega)).trans (h.lt j (by omega)).le

theorem exists_chunk (hx : 0 ≤ x ∧ x < n) : ∃ i < P, S i ≤ x ∧ x < S (i + 1) := by
  have hall : ∀ j, x < S j → ∃ i < j, S i ≤ x ∧ x < S (i + 1) := by
    intro j
    induction j with
    | zero =>
      intro hj
      rw [h.zero] at hj
      omega
    | succ j ih =>
      intro hj
      rcases lt_or_ge x (S j) with hlt | hge
      · obtain ⟨i, hi, hb⟩ := ih hlt
        exact ⟨i, by omega, hb⟩
      · exact ⟨j, by omega, hge, hj⟩
  exact hall P (by rw [h.last]; exact hx.2)

/-- A point between the chunks `s` and `f` lies in one of them. -/
theorem exists_between {s f : ℕ} (hf : f < P) (hsf : s ≤ f) (hx : S s ≤ x ∧ x < S (f + 1)) :
    ∃ i, s ≤ i ∧ i ≤ f ∧ S i ≤ x ∧ x < S (i + 1) := by
  have h0 := h.le (Nat.zero_le s) (by omega)
  have h1 := h.le (show f + 1 ≤ P from hf) le_rfl
  rw [h.zero] at h0
  rw [h.last] at h1
  obtain ⟨i, hi, hb⟩ := h.exists_chunk (x := x) (by omega)
  refine ⟨i, ?_, ?_, hb⟩
  · by_contra hlt
    have := h.le (show i + 1 ≤ s by omega) (by omega)
    omega
  · by_contra hlt
    have := h.le (show f + 1 ≤ i by omega) hi.le
    omega

theorem findChunk_eq {i : ℕ} (hi : i < P) (hx : S i ≤ x ∧ x < S (i + 1)) : findChunk x (chunkCoords S P) = i := by
  have hfind : (chunkCoords S P).findIdx? (fun c => x ∈ c) = some i := by
    rw [List.findIdx?_eq_some_iff_getElem]
    refine ⟨by simpa [chunkCoords] using hi, ?_, ?_⟩
    · simpa [chunkCoords] using hx
    · intro j hj
      have hle := h.le (show j + 1 ≤ i from hj) hi.le
      simp only [chunkCoords, List.getElem_map, List.getElem_range, decide_eq_true_eq, mem_upto]
      omega
  unfold findChunk
  rw [hfind]
  rfl

/-- The end of the axis lies in no chunk, and the last chunk stands for it. -/
theorem findChunk_end : findChunk n (chunkCoords S P) = P - 1 := by
  have hfind : (chunkCoords S P).findIdx? (fun c => n ∈ c) = none := by
    rw [List.findIdx?_eq_none_iff]
    intro c hc
    obtain ⟨i, hi, rfl⟩ := List.mem_map.mp hc
    rw [List.mem_range] at hi
    have hle := h.le (show i + 1 ≤ P from hi) le_rfl
    rw [h.last] at hle
    rw [decide_eq_false_iff_not, mem_upto]
    omega
  unfold findChunk
  rw [hfind]
  simp [chunkCoords]

theorem sgCoords_eq {s k : ℕ} (hk : s + k ≤ P) :
    sgCoords (List.range' s k) (chunkCoords S P) = upto (S s) (S (s + k)) := by
  have hflat : ∀ k, s + k ≤ P →
      (List.range' s k).flatMap (fun i => (chunkCoords S P).getD i []) = upto (S s) (S (s + k)) := by
    intro k
    induction k with
    | zero =>
      intro _
      simp [upto]
    | succ k ih =>
      intro hk
      rw [List.range'_concat, List.flatMap_append, ih (by omega), List.flatMap_singleton, one_mul]
      have hget : (chunkCoords S P).getD (s + k) [] = upto (S (s + k)) (S (s + k + 1)) := by
        rw [List.getD_eq_getElem _ _ (by simp [chunkCoords]; omega)]
        simp [chunkCoords]
      rw [hget, upto_append (h.le (by omega) (by omega)) (h.lt _ (by omega)).le]
      rfl
  unfold sgCoords
  rw [hflat k hk, npUnique_upto]

/-- The chunks `s, …, f` that a part of the axis needs, and the part in them. -/
theorem clip {start size : ℤ} (h0 : 0 ≤ start) (h1 : 0 < size) (h2 : start + size ≤ n) :
    ∃ s f, s ≤ f ∧ f < P ∧ S s ≤ start ∧ start + size ≤ S (f + 1) ∧
      getNeededSubgrids start (start + size) (chunkCoords S P) = List.range' s (f + 1 - s) ∧
      sgCoords (List.range' s (f + 1 - s)) (chunkCoords S P) = upto (S s) (S (f + 1)) ∧
      sliceBounds (upto (S s) (S (f + 1))).length (getFinalClip start (start + size) (upto (S s) (S (f + 1)))) =
        (start - S s, size) := by
  obtain ⟨s, hs, hb⟩ := h.exists_chunk ⟨h0, by omega⟩
  -- the chunk of the end, or the last one
  have hend : ∃ f < P, findChunk (start + size) (chunkCoords S P) = f ∧ s ≤ f ∧ start + size ≤ S (f + 1) := by
    rcases h2.eq_or_lt with he | hlt
    · refine ⟨P - 1, by omega, he ▸ h.findChunk_end, by omega, ?_⟩
      rw [show P - 1 + 1 = P by omega, h.last, he]
    · obtain ⟨f, hf, hfb⟩ := h.exists_chunk (x := start + size) ⟨by omega, hlt⟩
      refine ⟨f, hf, h.findChunk_eq hf hfb, ?_, hfb.2.le⟩
      by_contra hsf
      have hle := h.le (show f + 1 ≤ s by omega) hs.le
      omega
  obtain ⟨f, hf, hfind, hsf, hle⟩ := hend
  have hrange : (List.range (f + 1)).drop s = List.range' s (f + 1 - s) := by
    rw [List.range_eq_range', List.drop_range']
    simp
  refine ⟨s, f, hsf, hf, hb.1, hle, ?_, ?_, ?_⟩
  · unfold getNeededSubgrids
    rw [hfind, h.findChunk_eq hs hb, hrange]
  · have hsg := h.sgCoords_eq (s := s) (k := f + 1 - s) (by omega)
    rwa [show s + (f + 1 - s) = f + 1 by omega] at hsg
  · have hlen : ((upto (S s) (S (f + 1))).length : ℤ) = S (f + 1) - S s := by
      rw [length_upto]
      omega
    have hlo : (upto (S s) (S (f + 1))).findIdx? (· = start) = some (start - S s).toNat := findIdx?_upto (by omega)
    rw [hlen]
    unfold getFinalClip
    rcases hle.eq_or_lt with he | hlt
    · rw [hlo, findIdx?_upto_none he.ge]
      simp only [Option.map_none]
      rw [sliceBounds_none (by omega) (by omega), Prod.mk.injEq]
      omega
    · rw [hlo, findIdx?_upto (by omega)]
      simp only [Option.map_some]
      rw [show (((start + size - S s).toNat : ℕ) : ℤ) = ((start - S s).toNat : ℕ) + size by omega,
        sliceBounds_some (by omega) h1.le (by omega), Prod.mk.injEq]
      omega

end Boundaries

end ParFlow.Pfb

/-! Reading a part of the array, when the reader has recovered the numbers of subgrids. -/

namespace ParFlow.Pfb

open ByteFile ExceptLoop IntLoop NdArray BlockSplit

/-! ## Blocks by position -/

namespace FileLayout

variable (L : FileLayout)

def counts : ℤ × ℤ × ℤ := (L.p, L.q, L.r)

/-- The lower end of the `i`-th block along an axis. -/
def bound (a : Axis) (i : ℕ) : ℤ :=
  BlockSplit.start ((a.coord L.dims).tdiv (a.coord L.counts)) ((a.coord L.dims).tmod (a.coord L.counts)) i

/-- The number of the subgrid at a position. -/
def index (d : ℕ × ℕ × ℕ) : ℕ := ((d.1 : ℤ) + L.p * d.2.1 + L.p * L.q * d.2.2).toNat

theorem domain_num (a : Axis) : (domainGrid L.nx L.ny L.nz).num a = a.coord L.dims := by cases a <;> rfl

theorem boundaries (a : Axis) : Boundaries (L.bound a) (a.coord L.counts).toNat (a.coord L.dims) := by
  have hrem := L.fits.rem_bounds a
  have hquot := L.fits.quot_pos a
  have hpos : 0 < a.coord L.counts := L.fits.pos a
  rw [domain_num] at hrem hquot
  constructor
  · exact start_zero hrem.1
  · unfold bound
    rw [Int.toNat_of_nonneg hpos.le]
    exact (start_end hrem.2.le).trans (Int.tdiv_mul_add_tmod _ _)
  · intro i _
    unfold bound
    rw [Nat.cast_succ, start_succ]
    exact lt_add_of_pos_right _ (size_pos hquot _ _)

variable {L} {d : ℕ × ℕ × ℕ}

/-- The position is one of the layout. -/
def InCounts (L : FileLayout) (d : ℕ × ℕ × ℕ) : Prop := d.1 < L.p.toNat ∧ d.2.1 < L.q.toNat ∧ d.2.2 < L.r.toNat

theorem index_spec (hd : InCounts L d) : L.index d < L.count ∧
    getSubgridLoc (L.index d) L.p L.q L.r = ((d.1 : ℤ), (d.2.1 : ℤ), (d.2.2 : ℤ)) := by
  obtain ⟨h1, h2, h3⟩ := hd
  have hin : InLayout (L.p, L.q, L.r) ((d.1 : ℤ), (d.2.1 : ℤ), (d.2.2 : ℤ)) := by
    rw [InLayout, Axis.forall]
    simp only [Axis.coord]
    omega
  have hproc : pqrToProcess d.1 d.2.1 d.2.2 L.p L.q L.r = (d.1 : ℤ) + L.p * d.2.1 + L.p * L.q * d.2.2 := by
    unfold pqrToProcess
    ring
  have hb : 0 ≤ pqrToProcess d.1 d.2.1 d.2.2 L.p L.q L.r ∧ pqrToProcess d.1 d.2.1 d.2.2 L.p L.q L.r < L.p * L.q * L.r :=
    process_bounds hin
  have hcast : (L.index d : ℤ) = pqrToProcess d.1 d.2.1 d.2.2 L.p L.q L.r := by
    unfold index
    rw [Int.toNat_of_nonneg (hproc ▸ hb.1), hproc]
  have hlt : L.index d < L.count := by
    have := L.count_eq
    omega
  have hspec := loc_spec hlt
  exact ⟨hlt, processes_inj hspec.1 hin (hspec.2.trans hcast)⟩

theorem start_index (hd : InCounts L d) :
    L.start (L.index d) = (L.bound .x d.1, L.bound .y d.2.1, L.bound .z d.2.2) := by
  have hrec := congrArg Prod.fst (L.record_block (L.index d))
  rw [← show ((L.block (L.index d)).lo .x, (L.block (L.index d)).lo .y, (L.block (L.index d)).lo .z) = L.start (L.index d)
    from hrec]
  unfold block
  rw [blockAt_lo, blockAt_lo, blockAt_lo, (index_spec hd).2]
  simp only [Axis.coord, domainGrid, newSubgrid, Subregion.lo, Subregion.num, add_zero, bound, dims, counts]

theorem shape_index (hd : InCounts L d) : L.shape (L.index d) = (L.bound .x (d.1 + 1) - L.bound .x d.1,
    L.bound .y (d.2.1 + 1) - L.bound .y d.2.1, L.bound .z (d.2.2 + 1) - L.bound .z d.2.2) := by
  have hrec := congrArg Prod.snd (L.record_block (L.index d))
  rw [← show ((L.block (L.index d)).num .x, (L.block (L.index d)).num .y, (L.block (L.index d)).num .z) =
    L.shape (L.index d) from hrec]
  unfold block
  rw [blockAt_num, blockAt_num, blockAt_num, (index_spec hd).2]
  simp only [Axis.coord, domainGrid, newSubgrid, Subregion.num, bound, dims, counts, Nat.cast_succ, start_succ,
    add_sub_cancel_left]

end FileLayout

/-! ## Chunks of the reader -/

theorem stepSlice_eq {g : ℕ → ℤ} {step m N : ℕ} (hstep : 0 < step) (hN : step * m ≤ N) :
    stepSlice ((List.range N).map g) ((step * m : ℕ) : ℤ) step = (List.range m).map fun j => g (step * j) := by
  unfold stepSlice
  rw [Int.toNat_natCast, Int.toNat_natCast, List.length_map, List.length_range, min_eq_left hN]
  have hget : ∀ i ∈ List.range (step * m), (if i % step = 0 then ((List.range N).map g)[i]? else none) =
      if i % step = 0 then some (g i) else none := by
    intro i hi
    rw [List.mem_range] at hi
    rw [List.getElem?_map, List.getElem?_range (by omega)]
    rfl
  rw [List.filterMap_congr hget]
  clear hget hN
  -- each run of `step` numbers has one multiple
  induction m with
  | zero => rfl
  | succ m ih =>
    rw [Nat.mul_succ, List.range_add, List.filterMap_append, ih, List.range_succ, List.map_append, List.filterMap_map]
    congr 1
    obtain ⟨k, rfl⟩ : ∃ k, step = k + 1 := ⟨step - 1, by omega⟩
    rw [List.range_succ_eq_map, List.filterMap_cons, List.filterMap_map]
    have hrest : (List.range k).filterMap (((fun i => if i % (k + 1) = 0 then some (g i) else none) ∘
        fun x => (k + 1) * m + x) ∘ Nat.succ) = [] := by
      rw [List.filterMap_eq_nil_iff]
      intro i hi
      rw [List.mem_range] at hi
      have hmod : ((k + 1) * m + Nat.succ i) % (k + 1) ≠ 0 := by
        rw [Nat.mul_add_mod, Nat.mod_eq_of_lt (by omega)]
        omega
      simp only [Function.comp_apply, if_neg hmod]
    rw [hrest]
    simp only [Function.comp_apply, add_zero, Nat.mul_mod_right, if_true, List.map_cons, List.map_nil]

theorem axisCoords_eq (S : ℕ → ℤ) (s n : ℕ) :
    axisCoords (S s) ((List.range n).map fun i => S (s + i + 1) - S (s + i)) =
      (List.range n).map fun i => upto (S (s + i)) (S (s + i + 1)) := by
  induction n generalizing s with
  | zero => rfl
  | succ n ih =>
    rw [List.range_succ_eq_map, List.map_cons, List.map_cons, List.map_map, List.map_map, axisCoords, add_zero,
      add_sub_cancel]
    congr 1
    have hih := ih (s + 1)
    have hshift : ∀ i, s + 1 + i = s + (i + 1) := fun i => by omega
    simp only [hshift] at hih
    exact hih

/-- The chunks along an axis are the blocks along it. -/
theorem axisCoords_stepSlice {L : FileLayout} {S : ℕ → ℤ} (hS : S 0 = 0) {step m : ℕ} (hstep : 0 < step)
    (hN : step * m ≤ L.count) (proj : Cell → ℤ) (h : ∀ j < m, proj (L.shape (step * j)) = S (j + 1) - S j) :
    axisCoords 0 (stepSlice (((List.range L.count).map L.shape).map proj) ((step * m : ℕ) : ℤ) step) = chunkCoords S m := by
  rw [List.map_map, stepSlice_eq hstep hN]
  have hsizes : (List.range m).map (fun j => (proj ∘ L.shape) (step * j)) =
      (List.range m).map fun i => S (0 + i + 1) - S (0 + i) := by
    apply List.map_congr_left
    intro j hj
    rw [Function.comp_apply, h j (List.mem_range.mp hj), zero_add]
  have hcoords := axisCoords_eq S 0 m
  rw [hS] at hcoords
  rw [hsizes, hcoords]
  simp only [zero_add, chunkCoords]

/-- The chunks and coordinates of a reader belong to its subgrids. -/
def Coherent (reader : ParflowBinaryReader) : Prop :=
  computeChunks reader.p reader.q reader.r reader.info.subgridShapes = .ok reader.chunks ∧
    reader.coords = computeCoords reader.chunks

theorem withInfo_coherent {file : File} {header : Header} {p q r : ℤ} {info : SubgridInfo} {reader : ParflowBinaryReader}
    (h : withInfo file header p q r info = .ok reader) : Coherent reader := by
  obtain ⟨chunks, hchunks, hreader⟩ := exists_of_bind_ok h
  cases hreader
  exact ⟨hchunks, rfl⟩

theorem newReader_coherent {file : File} {readSgInfo : Bool} {reader : ParflowBinaryReader}
    (h : newReader file readSgInfo = .ok reader) : Coherent reader := by
  obtain ⟨header, -, h₁⟩ := exists_of_bind_ok h
  obtain ⟨first, -, h₂⟩ := exists_of_bind_ok h₁
  obtain ⟨p, -, h₃⟩ := exists_of_bind_ok h₂
  obtain ⟨q, -, h₄⟩ := exists_of_bind_ok h₃
  obtain ⟨r, -, h₅⟩ := exists_of_bind_ok h₄
  obtain ⟨reader₁, hr₁, h₆⟩ := exists_of_bind_ok h₅
  cases readSgInfo with
  | false =>
    cases h₆
    exact withInfo_coherent hr₁
  | true =>
    obtain ⟨st, -, h₇⟩ := exists_of_bind_ok (show readSubgridInfo reader₁ = .ok reader from h₆)
    exact withInfo_coherent h₇

/-- The reader has recovered the numbers of subgrids. -/
structure Recovers (L : FileLayout) (reader : ParflowBinaryReader) : Prop where
  laysOut : LaysOut L reader
  counts : (reader.p, reader.q, reader.r) = L.counts
  coordsX : reader.coords.x = chunkCoords (L.bound .x) L.p.toNat
  coordsY : reader.coords.y = chunkCoords (L.bound .y) L.q.toNat
  coordsZ : reader.coords.z = chunkCoords (L.bound .z) L.r.toNat

theorem recovers_of_coherent {L : FileLayout} {reader : ParflowBinaryReader} (hl : LaysOut L reader) (hc : Coherent reader)
    (hcounts : (reader.p, reader.q, reader.r) = L.counts) : Recovers L reader := by
  obtain ⟨hp, hq, hr⟩ : reader.p = L.p ∧ reader.q = L.q ∧ reader.r = L.r := by
    simpa [FileLayout.counts] using hcounts
  obtain ⟨pp, pq, pr⟩ := L.counts_pos
  obtain ⟨P, hP⟩ := Int.eq_ofNat_of_zero_le pp.le
  obtain ⟨Q, hQ⟩ := Int.eq_ofNat_of_zero_le pq.le
  obtain ⟨R, hR⟩ := Int.eq_ofNat_of_zero_le pr.le
  have hcount : L.count = P * Q * R := by
    have := L.count_eq
    rw [hP, hQ, hR] at this
    exact_mod_cast this
  have hP0 : 0 < P := by omega
  have hQ0 : 0 < Q := by omega
  have hR0 : 0 < R := by omega
  have hin : ∀ i j k, i < P → j < Q → k < R → FileLayout.InCounts L (i, j, k) := by
    intro i j k hi hj hk
    simp only [FileLayout.InCounts, hP, hQ, hR]
    omega
  obtain ⟨hchunks, hcoords⟩ := hc
  rw [hp, hq, hr, hl.shapes] at hchunks
  unfold computeChunks at hchunks
  split_ifs at hchunks
  rw [← Except.ok.inj hchunks, hP, hQ, hR] at hcoords
  have hx := axisCoords_stepSlice (L := L) (m := P) (L.boundaries .x).zero one_pos
    (by rw [hcount]; nlinarith [Nat.mul_pos hQ0 hR0]) (fun s => s.1) (by
      intro j hj
      have hidx : 1 * j = L.index (j, 0, 0) := by simp [FileLayout.index]
      rw [hidx, FileLayout.shape_index (hin j 0 0 hj hQ0 hR0)])
  have hy := axisCoords_stepSlice (L := L) (m := Q) (L.boundaries .y).zero hP0
    (by rw [hcount]; nlinarith [Nat.mul_pos hP0 hQ0]) (fun s => s.2.1) (by
      intro j hj
      have hidx : P * j = L.index (0, j, 0) := by
        simp only [FileLayout.index, hP, Nat.cast_zero, zero_add, mul_zero, add_zero]
        norm_cast
      rw [hidx, FileLayout.shape_index (hin 0 j 0 hP0 hj hR0)])
  have hz := axisCoords_stepSlice (L := L) (m := R) (L.boundaries .z).zero (Nat.mul_pos hP0 hQ0) (by rw [hcount])
    (fun s => s.2.2) (by
      intro j hj
      have hidx : P * Q * j = L.index (0, 0, j) := by
        simp only [FileLayout.index, hP, hQ, Nat.cast_zero, zero_add, mul_zero]
        norm_cast
      rw [hidx, FileLayout.shape_index (hin 0 0 j hP0 hQ0 hj)])
  rw [one_mul, Nat.cast_one] at hx
  rw [Nat.cast_mul] at hy
  rw [Nat.cast_mul, Nat.cast_mul] at hz
  refine ⟨hl, hcounts, ?_, ?_, ?_⟩
  · rw [hcoords, hP, Int.toNat_natCast]
    exact hx
  · rw [hcoords, hQ, Int.toNat_natCast]
    exact hy
  · rw [hcoords, hR, Int.toNat_natCast]
    exact hz

/-! ## A part of the array -/

section Subarray

variable {L : FileLayout} {sp : Spacing} {vals : Cell → Word} {reader : ParflowBinaryReader}

def minus (c d : Cell) : Cell := (c.1 - d.1, c.2.1 - d.2.1, c.2.2 - d.2.2)

theorem mem_block_index {d : ℕ × ℕ × ℕ} (hd : FileLayout.InCounts L d) {c : Cell} : c ∈ (L.block (L.index d)).cells ↔
    (L.bound .x d.1 ≤ c.1 ∧ c.1 < L.bound .x (d.1 + 1)) ∧ (L.bound .y d.2.1 ≤ c.2.1 ∧ c.2.1 < L.bound .y (d.2.1 + 1)) ∧
      L.bound .z d.2.2 ≤ c.2.2 ∧ c.2.2 < L.bound .z (d.2.2 + 1) := by
  rw [FileLayout.mem_block_iff, FileLayout.start_index hd, FileLayout.shape_index hd]
  simp only [InDims]
  omega

/-- The box that the needed subgrids fill: from `lo` to `hi` blocks along each axis. -/
structure BlockBox (L : FileLayout) (lo hi : ℕ × ℕ × ℕ) : Prop where
  x : lo.1 ≤ hi.1 ∧ hi.1 < L.p.toNat
  y : lo.2.1 ≤ hi.2.1 ∧ hi.2.1 < L.q.toNat
  z : lo.2.2 ≤ hi.2.2 ∧ hi.2.2 < L.r.toNat

def boxCorner (L : FileLayout) (lo : ℕ × ℕ × ℕ) : Cell := (L.bound .x lo.1, L.bound .y lo.2.1, L.bound .z lo.2.2)

def boxDims (L : FileLayout) (lo hi : ℕ × ℕ × ℕ) : Cell :=
  (L.bound .x (hi.1 + 1) - L.bound .x lo.1, L.bound .y (hi.2.1 + 1) - L.bound .y lo.2.1,
    L.bound .z (hi.2.2 + 1) - L.bound .z lo.2.2)

/-- The positions of the needed subgrids, in the order of `itertools.product`. -/
def boxPositions (lo hi : ℕ × ℕ × ℕ) : List (ℕ × ℕ × ℕ) :=
  (List.range' lo.1 (hi.1 + 1 - lo.1)).flatMap fun xsg => (List.range' lo.2.1 (hi.2.1 + 1 - lo.2.1)).flatMap fun ysg =>
    (List.range' lo.2.2 (hi.2.2 + 1 - lo.2.2)).map fun zsg => (xsg, ysg, zsg)

theorem mem_boxPositions {lo hi d : ℕ × ℕ × ℕ} : d ∈ boxPositions lo hi ↔ (lo.1 ≤ d.1 ∧ d.1 < lo.1 + (hi.1 + 1 - lo.1)) ∧
    (lo.2.1 ≤ d.2.1 ∧ d.2.1 < lo.2.1 + (hi.2.1 + 1 - lo.2.1)) ∧
    lo.2.2 ≤ d.2.2 ∧ d.2.2 < lo.2.2 + (hi.2.2 + 1 - lo.2.2) := by
  obtain ⟨x, y, z⟩ := d
  simp only [boxPositions, List.mem_flatMap, List.mem_map, List.mem_range'_1, Prod.mk.injEq]
  constructor
  · rintro ⟨x', hx, y', hy, z', hz, rfl, rfl, rfl⟩
    exact ⟨hx, hy, hz⟩
  · rintro ⟨hx, hy, hz⟩
    exact ⟨x, hx, y, hy, z, hz, rfl, rfl, rfl⟩

variable {lo hi : ℕ × ℕ × ℕ}

theorem BlockBox.inCounts (hbox : BlockBox L lo hi) {d : ℕ × ℕ × ℕ} (hd : d ∈ boxPositions lo hi) :
    FileLayout.InCounts L d := by
  rw [mem_boxPositions] at hd
  have hx := hbox.x
  have hy := hbox.y
  have hz := hbox.z
  simp only [FileLayout.InCounts]
  omega

theorem placeBounding_spec (hr : Recovers L reader) (hf : IsPfb L sp vals reader.file) (hbox : BlockBox L lo hi)
    {d : ℕ × ℕ × ℕ} (hd : d ∈ boxPositions lo hi) {b : NdArray Word} (hb : b.dims = boxDims L lo hi) :
    ∃ b', placeBounding reader (boxCorner L lo) b d = .ok b' ∧ b'.dims = b.dims ∧
      (∀ c ∈ (L.block (L.index d)).cells, b'.get (minus c (boxCorner L lo)) = vals c) ∧
      ∀ c, c ∉ (L.block (L.index d)).cells → b'.get (minus c (boxCorner L lo)) = b.get (minus c (boxCorner L lo)) := by
  have hdin := hbox.inCounts hd
  obtain ⟨hk, -⟩ := FileLayout.index_spec hdin
  have hp : reader.p = L.p := congrArg Prod.fst hr.counts
  have hq : reader.q = L.q := congrArg (fun c => c.2.1) hr.counts
  obtain ⟨blk, hblk, hdims, hget⟩ := ilocSubgrid_spec hr.laysOut hf hk
  have hstart := FileLayout.start_index hdin
  have hshape := FileLayout.shape_index hdin
  rw [mem_boxPositions] at hd
  obtain ⟨bx1, bx2⟩ := hbox.x
  obtain ⟨by1, by2⟩ := hbox.y
  obtain ⟨bz1, bz2⟩ := hbox.z
  have hBx := L.boundaries .x
  have hBy := L.boundaries .y
  have hBz := L.boundaries .z
  simp only [Axis.coord, FileLayout.counts] at hBx hBy hBz
  -- the block lies between the ends of the box
  have hx₁ := hBx.le hd.1.1 (by omega)
  have hx₂ := hBx.le (show d.1 + 1 ≤ hi.1 + 1 by omega) (by omega)
  have hx₃ := hBx.lt d.1 (by omega)
  have hy₁ := hBy.le hd.2.1.1 (by omega)
  have hy₂ := hBy.le (show d.2.1 + 1 ≤ hi.2.1 + 1 by omega) (by omega)
  have hy₃ := hBy.lt d.2.1 (by omega)
  have hz₁ := hBz.le hd.2.2.1 (by omega)
  have hz₂ := hBz.le (show d.2.2 + 1 ≤ hi.2.2 + 1 by omega) (by omega)
  have hz₃ := hBz.lt d.2.2 (by omega)
  obtain ⟨b', hb', hd', hin, hout⟩ := assign_block b blk (minus (L.start (L.index d)) (boxCorner L lo))
    (by rw [hb, hdims, hstart, hshape]; simp only [minus, boxCorner, boxDims]; omega)
    (by rw [hb, hdims, hstart, hshape]; simp only [minus, boxCorner, boxDims]; omega)
    (by rw [hb, hdims, hstart, hshape]; simp only [minus, boxCorner, boxDims]; omega)
  have hcell : ∀ c : Cell, minus (minus c (boxCorner L lo)) (minus (L.start (L.index d)) (boxCorner L lo)) =
      minus c (L.start (L.index d)) := by
    intro c
    simp only [minus, Prod.mk.injEq]
    omega
  refine ⟨b', ?_, hd', ?_, ?_⟩
  · unfold placeBounding
    rw [hp, hq]
    show (nth reader.info.subgridBeginIdxs (L.index d) >>= _) = _
    rw [hr.laysOut.starts, bind_ok (nth_map_range _ hk)]
    show (nth reader.info.subgridShapes (L.index d) >>= _) = _
    rw [hr.laysOut.shapes, bind_ok (nth_map_range _ hk)]
    show (ilocSubgrid reader (L.index d) >>= _) = _
    rw [bind_ok hblk]
    show place b (minus (L.start (L.index d)) (boxCorner L lo)) (L.shape (L.index d)) blk = _
    unfold place
    rw [← hdims, hb']
  · intro c hc
    have hmem := FileLayout.mem_block_iff.mp hc
    have h := hin (minus c (boxCorner L lo)) (by
      rw [hdims]
      show InDims _ (minus (minus c (boxCorner L lo)) (minus (L.start (L.index d)) (boxCorner L lo)))
      rw [hcell]
      exact hmem)
    rw [h]
    have hvals := hget _ hmem
    simp only [add_sub_cancel] at hvals
    rw [← hvals]
    exact congrArg blk.get (hcell c)
  · intro c hc
    apply hout
    intro h
    apply hc
    rw [hdims] at h
    replace h : InDims _ (minus (minus c (boxCorner L lo)) (minus (L.start (L.index d)) (boxCorner L lo))) := h
    rw [hcell] at h
    exact FileLayout.mem_block_iff.mpr h

/-- The loop fills the whole box. -/
theorem bounding_spec (hr : Recovers L reader) (hf : IsPfb L sp vals reader.file) (hbox : BlockBox L lo hi)
    (empty : Cell → Word) :
    ∃ b, (boxPositions lo hi).foldlM (placeBounding reader (boxCorner L lo)) ⟨boxDims L lo hi, empty⟩ = .ok b ∧
      b.dims = boxDims L lo hi ∧ ∀ c, InDims (boxDims L lo hi) c →
        b.get c = vals ((boxCorner L lo).1 + c.1, (boxCorner L lo).2.1 + c.2.1, (boxCorner L lo).2.2 + c.2.2) := by
  have hrun : ∃ b, (boxPositions lo hi).foldlM (placeBounding reader (boxCorner L lo)) ⟨boxDims L lo hi, empty⟩ = .ok b ∧
      b.dims = boxDims L lo hi ∧ ∀ d ∈ boxPositions lo hi, ∀ c ∈ (L.block (L.index d)).cells,
        b.get (minus c (boxCorner L lo)) = vals c := by
    apply foldlM_inv fun pre (b : NdArray Word) => b.dims = boxDims L lo hi ∧ ∀ d ∈ pre, ∀ c ∈ (L.block (L.index d)).cells,
      b.get (minus c (boxCorner L lo)) = vals c
    · exact ⟨rfl, fun d hd => absurd hd List.not_mem_nil⟩
    · intro pre d post b hl hinv
      have hd : d ∈ boxPositions lo hi := by
        rw [hl]
        simp
      obtain ⟨b', hb', hdims, hin, hout⟩ := placeBounding_spec hr hf hbox hd hinv.1
      refine ⟨b', hb', hdims.trans hinv.1, ?_⟩
      intro e he c hc
      by_cases hcd : c ∈ (L.block (L.index d)).cells
      · exact hin c hcd
      · rw [hout c hcd]
        rcases List.mem_append.mp he with hpre | hlast
        · exact hinv.2 e hpre c hc
        · rw [List.mem_singleton] at hlast
          rw [hlast] at hc
          exact absurd hc hcd
  obtain ⟨b, hb, hdims, hget⟩ := hrun
  refine ⟨b, hb, hdims, ?_⟩
  intro c hc
  obtain ⟨hcx, hcy, hcz⟩ := hc
  simp only [boxDims] at hcx hcy hcz
  obtain ⟨bx1, bx2⟩ := hbox.x
  obtain ⟨by1, by2⟩ := hbox.y
  obtain ⟨bz1, bz2⟩ := hbox.z
  obtain ⟨i, hi1, hi2, hi3⟩ := (L.boundaries .x).exists_between (x := L.bound .x lo.1 + c.1) bx2 bx1 (by omega)
  obtain ⟨j, hj1, hj2, hj3⟩ := (L.boundaries .y).exists_between (x := L.bound .y lo.2.1 + c.2.1) by2 by1 (by omega)
  obtain ⟨k, hk1, hk2, hk3⟩ := (L.boundaries .z).exists_between (x := L.bound .z lo.2.2 + c.2.2) bz2 bz1 (by omega)
  have hd : (i, j, k) ∈ boxPositions lo hi := mem_boxPositions.mpr (by simp only; omega)
  have hval := hget (i, j, k) hd (L.bound .x lo.1 + c.1, L.bound .y lo.2.1 + c.2.1, L.bound .z lo.2.2 + c.2.2)
    ((mem_block_index (hbox.inCounts hd)).mpr ⟨hi3, hj3, hk3⟩)
  have hback : minus (L.bound .x lo.1 + c.1, L.bound .y lo.2.1 + c.2.1, L.bound .z lo.2.2 + c.2.2) (boxCorner L lo) = c := by
    simp [minus, boxCorner]
  rw [hback] at hval
  exact hval

/-- The box of the values that are asked for lies in the array. -/
structure SubBox (dims start size : Cell) : Prop where
  x : 0 ≤ start.1 ∧ 0 < size.1 ∧ start.1 + size.1 ≤ dims.1
  y : 0 ≤ start.2.1 ∧ 0 < size.2.1 ∧ start.2.1 + size.2.1 ≤ dims.2.1
  z : 0 ≤ start.2.2 ∧ 0 < size.2.2 ∧ start.2.2 + size.2.2 ≤ dims.2.2

theorem readSubarray_spec (hr : Recovers L reader) (hf : IsPfb L sp vals reader.file) {start size : Cell}
    (hbox : SubBox L.dims start size) (zFirst : Bool) (empty : Cell → Word) :
    ∃ a, readSubarray reader start size zFirst empty = .ok a ∧ a.dims = orient zFirst size ∧
      ∀ c, InDims size c → a.get (orient zFirst c) = vals (start.1 + c.1, start.2.1 + c.2.1, start.2.2 + c.2.2) := by
  obtain ⟨hx0, hx1, hx2⟩ := hbox.x
  obtain ⟨hy0, hy1, hy2⟩ := hbox.y
  obtain ⟨hz0, hz1, hz2⟩ := hbox.z
  obtain ⟨sx, fx, hsx, hfx, hlx, hux, hnx, hcx, hbx⟩ := (L.boundaries .x).clip hx0 hx1 hx2
  obtain ⟨sy, fy, hsy, hfy, hly, huy, hny, hcy, hby⟩ := (L.boundaries .y).clip hy0 hy1 hy2
  obtain ⟨sz, fz, hsz, hfz, hlz, huz, hnz, hcz, hbz⟩ := (L.boundaries .z).clip hz0 hz1 hz2
  have hblocks : BlockBox L (sx, sy, sz) (fx, fy, fz) := ⟨⟨hsx, hfx⟩, ⟨hsy, hfy⟩, ⟨hsz, hfz⟩⟩
  obtain ⟨b, hb, hdims, hget⟩ := bounding_spec hr hf hblocks empty
  have hlenx : ((upto (L.bound .x sx) (L.bound .x (fx + 1))).length : ℤ) = L.bound .x (fx + 1) - L.bound .x sx := by
    rw [length_upto]
    omega
  have hleny : ((upto (L.bound .y sy) (L.bound .y (fy + 1))).length : ℤ) = L.bound .y (fy + 1) - L.bound .y sy := by
    rw [length_upto]
    omega
  have hlenz : ((upto (L.bound .z sz) (L.bound .z (fz + 1))).length : ℤ) = L.bound .z (fz + 1) - L.bound .z sz := by
    rw [length_upto]
    omega
  rw [hlenx] at hbx
  rw [hleny] at hby
  rw [hlenz] at hbz
  have hread : readSubarray reader start size zFirst empty = .ok (if zFirst then
      (b.slice (getFinalClip start.1 (start.1 + size.1) (upto (L.bound .x sx) (L.bound .x (fx + 1))))
        (getFinalClip start.2.1 (start.2.1 + size.2.1) (upto (L.bound .y sy) (L.bound .y (fy + 1))))
        (getFinalClip start.2.2 (start.2.2 + size.2.2) (upto (L.bound .z sz) (L.bound .z (fz + 1))))).transpose
      else b.slice (getFinalClip start.1 (start.1 + size.1) (upto (L.bound .x sx) (L.bound .x (fx + 1))))
        (getFinalClip start.2.1 (start.2.1 + size.2.1) (upto (L.bound .y sy) (L.bound .y (fy + 1))))
        (getFinalClip start.2.2 (start.2.2 + size.2.2) (upto (L.bound .z sz) (L.bound .z (fz + 1))))) := by
    unfold readSubarray
    simp only [if_neg hx1.ne', if_neg hy1.ne', if_neg hz1.ne', hr.coordsX, hr.coordsY, hr.coordsZ]
    simp only [Axis.coord, FileLayout.counts] at hnx hny hnz hcx hcy hcz
    rw [hnx, hny, hnz, hcx, hcy, hcz, bind_ok (npMin_upto (by omega)), bind_ok (npMin_upto (by omega)),
      bind_ok (npMin_upto (by omega)), hlenx, hleny, hlenz]
    exact bind_ok hb _
  refine ⟨_, hread, ?_⟩
  have hslice : ∀ c, InDims size c → (b.slice
      (getFinalClip start.1 (start.1 + size.1) (upto (L.bound .x sx) (L.bound .x (fx + 1))))
      (getFinalClip start.2.1 (start.2.1 + size.2.1) (upto (L.bound .y sy) (L.bound .y (fy + 1))))
      (getFinalClip start.2.2 (start.2.2 + size.2.2) (upto (L.bound .z sz) (L.bound .z (fz + 1))))).get c =
        vals (start.1 + c.1, start.2.1 + c.2.1, start.2.2 + c.2.2) := by
    intro c hc
    obtain ⟨h1, h2, h3⟩ := hc
    simp only [slice, hdims, boxDims]
    rw [hbx, hby, hbz, hget _ (by simp only [boxDims, InDims]; omega)]
    simp only [boxCorner]
    congr 1
    simp only [Prod.mk.injEq]
    omega
  have hsize : (b.slice
      (getFinalClip start.1 (start.1 + size.1) (upto (L.bound .x sx) (L.bound .x (fx + 1))))
      (getFinalClip start.2.1 (start.2.1 + size.2.1) (upto (L.bound .y sy) (L.bound .y (fy + 1))))
      (getFinalClip start.2.2 (start.2.2 + size.2.2) (upto (L.bound .z sz) (L.bound .z (fz + 1))))).dims = size := by
    simp only [slice, hdims, boxDims]
    rw [hbx, hby, hbz]
  cases zFirst with
  | false => exact ⟨hsize, hslice⟩
  | true => exact ⟨congrArg flipCell hsize, hslice⟩

end Subarray

end ParFlow.Pfb
