import ParFlow.Pfb.DistFile

/-! `ReadParflowB` on the file of `LoadParflowB`, and the agreement of the tools and the simulator. -/

namespace ParFlow.Pfb

open IntLoop ByteFile

/-! ## Filling a databox -/

section Fill

variable {α : Type} {d v : Databox α} {idx idxs : List ℤ} {i : ℤ}

/-- Copy one value. -/
def fill (d v : Databox α) (i : ℤ) : Databox α := { v with coeffs := Function.update v.coeffs i (d.coeffs i) }

/-- The sizes, the origin and the spacing. -/
def SameFrame (v w : Databox α) : Prop :=
  (v.nx = w.nx ∧ v.ny = w.ny ∧ v.nz = w.nz) ∧ (v.x = w.x ∧ v.y = w.y ∧ v.z = w.z) ∧
    v.dx = w.dx ∧ v.dy = w.dy ∧ v.dz = w.dz

theorem SameFrame.refl (v : Databox α) : SameFrame v v := ⟨⟨rfl, rfl, rfl⟩, ⟨rfl, rfl, rfl⟩, rfl, rfl, rfl⟩

/-- Assignments whose values depend on the index only. -/
theorem foldl_update (f g : ℤ → α) (idxs : List ℤ) (hi : i ∈ idxs) :
    idxs.foldl (fun f i => Function.update f i (g i)) f i = g i := by
  have hkeep : ∀ (idxs : List ℤ) (f : ℤ → α), f i = g i →
      idxs.foldl (fun f i => Function.update f i (g i)) f i = g i := by
    intro idxs
    induction idxs with
    | nil => exact fun f h => h
    | cons j idxs ih =>
      intro f h
      apply ih
      show Function.update f j (g j) i = g i
      by_cases hij : i = j
      · rw [hij, Function.update_self]
      · rw [Function.update_of_ne hij, h]
  induction idxs generalizing f with
  | nil => exact absurd hi List.not_mem_nil
  | cons j idxs ih =>
    rcases List.mem_cons.mp hi with hij | hi
    · apply hkeep idxs (Function.update f j (g j))
      rw [hij, Function.update_self]
    · exact ih _ hi

theorem foldl_fill (d v : Databox α) (idxs : List ℤ) : SameFrame (idxs.foldl (fill d) v) v ∧
    ∀ i ∈ idxs, (idxs.foldl (fill d) v).coeffs i = d.coeffs i := by
  have hcoeffs : SameFrame (idxs.foldl (fill d) v) v ∧
      (idxs.foldl (fill d) v).coeffs = idxs.foldl (fun f i => Function.update f i (d.coeffs i)) v.coeffs := by
    induction idxs generalizing v with
    | nil => exact ⟨SameFrame.refl v, rfl⟩
    | cons j idxs ih => exact ih (fill d v j)
  refine ⟨hcoeffs.1, fun i hi => ?_⟩
  rw [hcoeffs.2]
  exact foldl_update _ _ idxs hi

end Fill

/-! ## Reading a subgrid -/

section Read

variable {α : Type} {enc : Encoding α} {d v : Databox α}

/-- The bytes of fields. -/
def Encoding.bytes (enc : Encoding α) (fields : List (Field α)) : List UInt8 := fields.flatMap enc.field

theorem Encoding.bytes_append (enc : Encoding α) (l m : List (Field α)) : enc.bytes (l ++ m) = enc.bytes l ++ enc.bytes m :=
  List.flatMap_append

theorem Encoding.bytes_cons (enc : Encoding α) (f : Field α) (l : List (Field α)) :
    enc.bytes (f :: l) = enc.field f ++ enc.bytes l := rfl

def IsInt (n : ℤ) : Prop := INT_MIN ≤ n ∧ n ≤ INT_MAX

theorem reads_int {n : ℤ} (hn : IsInt n) : Reads (Tools.readInt enc) (enc.field (.int n)) n := by
  have h := (reads_takeBytes (enc.length_int n)).map enc.readInt
  rwa [enc.readInt_int n hn.1 hn.2] at h

theorem reads_double (w : α) : Reads (Tools.readDouble enc) (enc.field (.double w)) w := by
  have h := (reads_takeBytes (enc.length_double w)).map enc.readDouble
  rwa [enc.readDouble_double w] at h

/-- A row of the databox is read back to where it comes from. -/
theorem reads_row (d v : Databox α) (nx ptr : ℤ) : Reads (Tools.readRow enc nx v ptr)
    ((upto 0 nx).flatMap fun i => enc.field (.double (d.coeffs (ptr + i))))
    ((upto 0 nx).foldl (fun v i => fill d v (ptr + i)) v) := by
  unfold Tools.readRow
  apply Reads.foldlM (fun _ => True)
  · intro i _ v _
    exact (reads_double (d.coeffs (ptr + i))).map fun w => { v with coeffs := Function.update v.coeffs (ptr + i) w }
  · exact fun _ _ _ _ => trivial
  · trivial

/-- The indices of a subgrid in the data, in the order of the file. -/
def subgridIndices (d : Databox α) (s : Subgrid) : List ℤ :=
  (upto 0 s.nz).flatMap fun k => (upto 0 s.ny).flatMap fun j => (upto 0 s.nx).map fun i =>
    d.coeff s.ix (s.iy + j) (s.iz + k) + i

/-- The values of a record are those at the indices. -/
theorem loadSubgrid_values (d : Databox α) (s : Subgrid) : loadSubgrid d s =
    [.int s.ix, .int s.iy, .int s.iz, .int s.nx, .int s.ny, .int s.nz, .int s.rx, .int s.ry, .int s.rz] ++
      (subgridIndices d s).map fun i => .double (d.coeffs i) := by
  unfold loadSubgrid subgridIndices
  dsimp only
  congr 1
  rw [List.map_flatMap]
  apply List.flatMap_congr
  intro k _
  rw [List.map_flatMap]
  apply List.flatMap_congr
  intro j _
  rw [List.map_map]
  apply List.map_congr_left
  intro i _
  simp only [Function.comp_apply, Databox.coeff]
  congr 2
  ring

/-- The integers of a record are `int`s. -/
def IntRecord (s : Subgrid) : Prop :=
  (IsInt s.ix ∧ IsInt s.iy ∧ IsInt s.iz) ∧ (IsInt s.nx ∧ IsInt s.ny ∧ IsInt s.nz) ∧ IsInt s.rx ∧ IsInt s.ry ∧ IsInt s.rz

theorem reads_subgrid {s : Subgrid} (hs : IntRecord s) (hx : v.nx = d.nx) (hy : v.ny = d.ny) (nsg : ℕ) :
    Reads (Tools.readSubgrid enc v nsg) (enc.bytes (loadSubgrid d s)) ((subgridIndices d s).foldl (fill d) v) := by
  obtain ⟨⟨h₁, h₂, h₃⟩, ⟨h₄, h₅, h₆⟩, h₇, h₈, h₉⟩ := hs
  have hrows : Reads ((upto 0 s.nz).foldlM (fun v k => (upto 0 s.ny).foldlM
        (fun v j => Tools.readRow enc s.nx v (v.coeff s.ix (s.iy + j) (s.iz + k))) v) v)
      (enc.bytes ((subgridIndices d s).map fun i => .double (d.coeffs i)))
      ((subgridIndices d s).foldl (fill d) v) := by
    -- the sizes fix where a row goes
    let I : Databox α → Prop := fun v => v.nx = d.nx ∧ v.ny = d.ny
    have hrow : ∀ (idxs : List ℤ) (v : Databox α), I v → I (idxs.foldl (fill d) v) := by
      intro idxs v hv
      obtain ⟨⟨hx, hy, -⟩, -⟩ := (foldl_fill d v idxs).1
      exact ⟨hx.trans hv.1, hy.trans hv.2⟩
    have hplane : ∀ (k : ℤ) (v : Databox α), I v → Reads ((upto 0 s.ny).foldlM
          (fun v j => Tools.readRow enc s.nx v (v.coeff s.ix (s.iy + j) (s.iz + k))) v)
        ((upto 0 s.ny).flatMap fun j => (upto 0 s.nx).flatMap fun i =>
          enc.field (.double (d.coeffs (d.coeff s.ix (s.iy + j) (s.iz + k) + i))))
        ((upto 0 s.ny).foldl (fun v j => ((upto 0 s.nx).map fun i =>
          d.coeff s.ix (s.iy + j) (s.iz + k) + i).foldl (fill d) v) v) := by
      intro k v hv
      apply Reads.foldlM I
      · intro j _ v hv
        have hptr : v.coeff s.ix (s.iy + j) (s.iz + k) = d.coeff s.ix (s.iy + j) (s.iz + k) := by
          unfold Databox.coeff
          rw [hv.1, hv.2]
        rw [hptr, List.foldl_map]
        exact reads_row d v s.nx _
      · exact fun j _ v hv => hrow _ v hv
      · exact hv
    have hbytes : enc.bytes ((subgridIndices d s).map fun i => .double (d.coeffs i)) =
        (upto 0 s.nz).flatMap fun k => (upto 0 s.ny).flatMap fun j => (upto 0 s.nx).flatMap fun i =>
          enc.field (.double (d.coeffs (d.coeff s.ix (s.iy + j) (s.iz + k) + i))) := by
      unfold Encoding.bytes subgridIndices
      simp only [List.map_flatMap, List.flatMap_assoc, List.map_map, List.flatMap_map, Function.comp_apply]
    have hfold : (subgridIndices d s).foldl (fill d) v = (upto 0 s.nz).foldl (fun v k => (upto 0 s.ny).foldl
        (fun v j => ((upto 0 s.nx).map fun i => d.coeff s.ix (s.iy + j) (s.iz + k) + i).foldl (fill d) v) v) v := by
      unfold subgridIndices
      simp only [List.foldl_flatMap]
    rw [hbytes, hfold]
    apply Reads.foldlM I
    · exact fun k _ v hv => hplane k v hv
    · intro k _ v hv
      rw [← List.foldl_flatMap]
      exact hrow _ v hv
    · exact ⟨hx, hy⟩
  rw [loadSubgrid_values, enc.bytes_append]
  simp only [enc.bytes_cons, List.append_assoc]
  unfold Tools.readSubgrid
  exact (reads_int h₁).bind ((reads_int h₂).bind ((reads_int h₃).bind ((reads_int h₄).bind ((reads_int h₅).bind
    ((reads_int h₆).bind ((reads_int h₇).bind ((reads_int h₈).bind ((reads_int h₉).bind hrows))))))))

theorem mem_subgridIndices {s : Subgrid} {c : Cell} (hc : c ∈ s.cells) : d.coeff c.1 c.2.1 c.2.2 ∈ subgridIndices d s := by
  obtain ⟨hx, hy, hz⟩ := Subregion.mem_cells_iff.mp hc
  unfold subgridIndices
  simp only [List.mem_flatMap, List.mem_map, mem_upto]
  refine ⟨c.2.2 - s.iz, by omega, c.2.1 - s.iy, by omega, c.1 - s.ix, by omega, ?_⟩
  unfold Databox.coeff
  rw [add_sub_cancel, add_sub_cancel]
  ring

end Read

/-! ## The whole file -/

section File

variable {α : Type} {enc : Encoding α} {lower spacing : α × α × α} {databox : Databox α} {nx ny nz p q r : ℤ}
  (hfits : Fits (domainGrid nx ny nz) (p, q, r))

include hfits

/-- One header, and the records in the order of the processes. -/
theorem loadParflowB_records :
    (loadParflowB lower spacing databox (layoutBlocks (domainGrid nx ny nz) (p, q, r))).fields =
      loadHeader lower spacing databox (p * q * r) ++
        (List.range (p * q * r).toNat).flatMap fun n : ℕ => loadSubgrid databox (rankBlock nx ny nz p q r n) := by
  have hpos : 0 < p * q * r := mul_pos (mul_pos (hfits.pos .x) (hfits.pos .y)) (hfits.pos .z)
  have hrun : ∀ k : ℕ, k ≤ (p * q * r).toNat → 0 < k → (List.range k).flatMap
      (fun n : ℕ => loadFields lower spacing databox (p * q * r) (rankBlock nx ny nz p q r n)) =
      loadHeader lower spacing databox (p * q * r) ++
        (List.range k).flatMap fun n : ℕ => loadSubgrid databox (rankBlock nx ny nz p q r n) := by
    intro k
    induction k with
    | zero => exact fun _ h => absurd h (lt_irrefl 0)
    | succ k ih =>
      intro hk _
      have hproc : (rankBlock nx ny nz p q r k).process = k := rankBlock_process hfits (by omega)
      rw [List.range_succ, List.flatMap_append, List.flatMap_append, List.flatMap_singleton, List.flatMap_singleton]
      rcases Nat.eq_zero_or_pos k with rfl | hk0
      · rw [loadFields, if_pos (by rw [hproc]; rfl)]
        rfl
      · rw [ih (by omega) hk0, loadFields, if_neg (by omega), List.nil_append, List.append_assoc]
  rw [loadParflowB_eq, loadNumProcs_eq hfits, rankOrder_eq hfits, (foldl_loadStep _ _ _ _ _ _).1, List.nil_append,
    List.flatMap_map, upto_zero_eq, List.flatMap_map]
  exact hrun _ le_rfl (by omega)

variable (hint : ∀ a, (domainGrid nx ny nz).num a ≤ INT_MAX) (hsize : (databox.nx, databox.ny, databox.nz) = (nx, ny, nz))

include hint

theorem intRecord_rankBlock {n : ℤ} (hn : 0 ≤ n ∧ n < p * q * r) : IntRecord (rankBlock nx ny nz p q r n) := by
  have hsub : (rankBlock nx ny nz p q r n).cells ⊆ (domainGrid nx ny nz).cells := fun c hc =>
    (hfits.isDistribution.exact.2 c).mp ⟨_, rankBlock_mem hfits hn, hc⟩
  have haxis : ∀ a, IsInt ((rankBlock nx ny nz p q r n).lo a) ∧ IsInt ((rankBlock nx ny nz p q r n).num a) := by
    intro a
    have hb := bounds_of_subset (rankBlock_nonEmpty hfits n) hsub a
    have hnum := Subregion.nonEmpty_axis.mp (rankBlock_nonEmpty hfits n) a
    have hlo : (domainGrid nx ny nz).lo a = 0 := by cases a <;> rfl
    have := hint a
    rw [hlo] at hb
    unfold IsInt INT_MIN
    omega
  have hzero : IsInt 0 := ⟨by decide, by decide⟩
  exact ⟨⟨(haxis .x).1, (haxis .y).1, (haxis .z).1⟩, ⟨(haxis .x).2, (haxis .y).2, (haxis .z).2⟩, hzero, hzero, hzero⟩

omit hfits hint in
/-- The databox comes back, with the origin and the spacing of the user's grid. -/
def ReadsBack (lower spacing : α × α × α) (databox v : Databox α) : Prop :=
  (v.nx = databox.nx ∧ v.ny = databox.ny ∧ v.nz = databox.nz) ∧ (v.x, v.y, v.z) = lower ∧ (v.dx, v.dy, v.dz) = spacing ∧
    ∀ i j k, (0 ≤ i ∧ i < databox.nx) → (0 ≤ j ∧ j < databox.ny) → (0 ≤ k ∧ k < databox.nz) →
      v.coeffs (v.coeff i j k) = databox.coeffs (databox.coeff i j k)

omit hint in
/-- Each cell of the databox lies in the subgrid of some process. -/
theorem mem_rankIndices {i j k : ℤ} (hi : 0 ≤ i ∧ i < nx) (hj : 0 ≤ j ∧ j < ny) (hk : 0 ≤ k ∧ k < nz) :
    databox.coeff i j k ∈ (List.range (p * q * r).toNat).flatMap fun n : ℕ =>
      subgridIndices databox (rankBlock nx ny nz p q r n) := by
  have hcell : ((i, j, k) : Cell) ∈ (domainGrid nx ny nz).cells := by
    rw [Subregion.mem_cells_iff]
    simp only [domainGrid, newSubgrid, zero_add]
    omega
  obtain ⟨s, hs, hc⟩ := (hfits.isDistribution.exact.2 _).mpr hcell
  have hproc := (hfits.isDistribution.mem_processes s.process).mp (List.mem_map_of_mem hs)
  have hone : s ∈ getGridSubgrids (layoutBlocks (domainGrid nx ny nz) (p, q, r)) s.process :=
    List.mem_filter.mpr ⟨hs, decide_eq_true rfl⟩
  rw [getGridSubgrids_rank hfits hproc, List.mem_singleton] at hone
  refine List.mem_flatMap.mpr ⟨s.process.toNat, List.mem_range.mpr (by dsimp only at hproc; omega), ?_⟩
  rw [Int.toNat_of_nonneg hproc.1, ← hone]
  exact mem_subgridIndices hc

theorem reads_records {v : Databox α} (hx : v.nx = databox.nx) (hy : v.ny = databox.ny) :
    Reads ((List.range (p * q * r).toNat).foldlM (Tools.readSubgrid enc) v)
      ((List.range (p * q * r).toNat).flatMap fun n : ℕ => enc.bytes (loadSubgrid databox (rankBlock nx ny nz p q r n)))
      (((List.range (p * q * r).toNat).flatMap fun n : ℕ => subgridIndices databox (rankBlock nx ny nz p q r n)).foldl
        (fill databox) v) := by
  rw [List.foldl_flatMap]
  apply Reads.foldlM fun v : Databox α => v.nx = databox.nx ∧ v.ny = databox.ny
  · intro n hn v hv
    rw [List.mem_range] at hn
    exact reads_subgrid (intRecord_rankBlock hfits hint (by omega)) hv.1 hv.2 n
  · intro n _ v hv
    obtain ⟨⟨hx, hy, -⟩, -⟩ := (foldl_fill databox v (subgridIndices databox (rankBlock nx ny nz p q r n))).1
    exact ⟨hx.trans hv.1, hy.trans hv.2⟩
  · exact ⟨hx, hy⟩

include hsize

theorem reads_file (hprocs : p * q * r ≤ INT_MAX) (dflt : α) : ∃ v, ReadsBack lower spacing databox v ∧
    Reads (Tools.readParflowB enc dflt)
      (enc.bytes (loadParflowB lower spacing databox (layoutBlocks (domainGrid nx ny nz) (p, q, r))).fields) v := by
  obtain ⟨hnx, hny, hnz⟩ : databox.nx = nx ∧ databox.ny = ny ∧ databox.nz = nz := by
    simpa only [Prod.mk.injEq] using hsize
  have hpos : 0 < p * q * r := mul_pos (mul_pos (hfits.pos .x) (hfits.pos .y)) (hfits.pos .z)
  let start : Databox α := ⟨databox.nx, databox.ny, databox.nz, lower.1, lower.2.1, lower.2.2, spacing.1, spacing.2.1,
    spacing.2.2, fun _ => dflt⟩
  let idxs := (List.range (p * q * r).toNat).flatMap fun n : ℕ => subgridIndices databox (rankBlock nx ny nz p q r n)
  obtain ⟨hframe, hget⟩ := foldl_fill databox start idxs
  refine ⟨idxs.foldl (fill databox) start, ⟨hframe.1, ?_, ?_, ?_⟩, ?_⟩
  · obtain ⟨-, ⟨hx, hy, hz⟩, -⟩ := hframe
    rw [hx, hy, hz]
  · obtain ⟨-, -, hx, hy, hz⟩ := hframe
    rw [hx, hy, hz]
  · intro i j k hi hj hk
    have hcoeff : (idxs.foldl (fill databox) start).coeff i j k = databox.coeff i j k := by
      unfold Databox.coeff
      rw [hframe.1.1, hframe.1.2.1]
    rw [hcoeff]
    exact hget _ (mem_rankIndices hfits (hnx ▸ hi) (hny ▸ hj) (hnz ▸ hk))
  · have hints : ∀ a, IsInt ((domainGrid nx ny nz).num a) := by
      intro a
      have hle := hint a
      have h₁ := hfits.pos a
      have h₂ := hfits.le a
      unfold IsInt INT_MIN
      omega
    have hx : IsInt databox.nx := hnx ▸ hints .x
    have hy : IsInt databox.ny := hny ▸ hints .y
    have hz : IsInt databox.nz := hnz ▸ hints .z
    have hnum : IsInt (p * q * r) := ⟨by unfold INT_MIN; omega, hprocs⟩
    have hguard : Reads (do
        if p * q * r < 0 then failure
        (List.range (p * q * r).toNat).foldlM (Tools.readSubgrid enc) start)
          ((List.range (p * q * r).toNat).flatMap fun n : ℕ => enc.bytes (loadSubgrid databox (rankBlock nx ny nz p q r n)))
          (idxs.foldl (fill databox) start) := by
      rw [if_neg (not_lt.mpr hpos.le)]
      exact reads_records hfits hint rfl rfl
    rw [loadParflowB_records hfits, enc.bytes_append, Encoding.bytes, loadHeader]
    simp only [List.flatMap_cons, List.flatMap_nil, List.append_nil, List.append_assoc, Encoding.bytes,
      List.flatMap_assoc] at hguard ⊢
    exact (reads_double _).bind ((reads_double _).bind ((reads_double _).bind ((reads_int hx).bind ((reads_int hy).bind
      ((reads_int hz).bind ((reads_double _).bind ((reads_double _).bind ((reads_double _).bind
        ((reads_int hnum).bind hguard)))))))))

end File

/-! ## Tools and simulator -/

section Agreement

variable {α : Type}

/-- The user's grid starts at the cell zero and has the sizes of the databox. -/
def OnUserGrid (databox : Databox α) (user : Subgrid) : Prop :=
  (user.ix, user.iy, user.iz) = (0, 0, 0) ∧ (user.nx, user.ny, user.nz) = (databox.nx, databox.ny, databox.nz)

theorem OnUserGrid.layoutBlocks_eq {databox : Databox α} {user : Subgrid} (h : OnUserGrid databox user)
    (L : ℤ × ℤ × ℤ) : layoutBlocks user L = layoutBlocks (domainGrid databox.nx databox.ny databox.nz) L := by
  obtain ⟨hlo, hnum⟩ := h
  simp only [Prod.mk.injEq] at hlo hnum
  unfold layoutBlocks
  apply List.map_congr_left
  intro c _
  unfold blockAt processSubgrid domainGrid newSubgrid
  dsimp only
  rw [hlo.1, hlo.2.1, hlo.2.2, hnum.1, hnum.2.1, hnum.2.2]

theorem pfdist_agrees (enc : Encoding α) (lower spacing : α × α × α) (dflt : α) (databox : Databox α) (user : Subgrid)
    (P Q R : ℤ) (huser : OnUserGrid databox user) (hP : 1 ≤ P ∧ P ≤ databox.nx) (hQ : 1 ≤ Q ∧ Q ≤ databox.ny)
    (hR : 1 ≤ R ∧ R ≤ databox.nz) (hx : databox.nx ≤ INT_MAX) (hy : databox.ny ≤ INT_MAX) (hz : databox.nz ≤ INT_MAX)
    (hprocs : P * Q * R ≤ INT_MAX) :
    ∃ subgrids, Tools.distributeUserGrid user (P * Q * R) P Q R = some subgrids ∧
      distributeUserGrid none user (P * Q * R) P Q R = some subgrids ∧
      (∀ vec : Subgrid → Subvector α, (∀ s ∈ subgrids, HoldsDatabox databox (vec s) s) →
        (∀ ws : List (ℕ × List UInt8), ws.Perm (allWrites enc lower spacing subgrids vec (P * Q * R)) →
          let bytes := enc.bytes (loadParflowB lower spacing databox subgrids).fields
          (File.empty.writeAll ws).size = bytes.length ∧ (File.empty.writeAll ws).bytesAt 0 bytes.length = bytes) ∧
        (loadParflowB lower spacing databox subgrids).distLines.take (P * Q * R).toNat =
          processStarts vec subgrids (P * Q * R)) ∧
      ∃ v, ReadsBack lower spacing databox v ∧
        Tools.readParflowB enc dflt (enc.bytes (loadParflowB lower spacing databox subgrids).fields) = some (v, []) := by
  have hfits : Fits (domainGrid databox.nx databox.ny databox.nz) (P, Q, R) :=
    ⟨Axis.forall.mpr ⟨hP.1, hQ.1, hR.1⟩, Axis.forall.mpr ⟨hP.2, hQ.2, hR.2⟩⟩
  have hint : ∀ a, (domainGrid databox.nx databox.ny databox.nz).num a ≤ INT_MAX := Axis.forall.mpr ⟨hx, hy, hz⟩
  have hsim : distributeUserGrid none user (P * Q * R) P Q R =
      some (layoutBlocks (domainGrid databox.nx databox.ny databox.nz) (P, Q, R)) := by
    rw [← huser.layoutBlocks_eq]
    exact distributeUserGrid_eq user (P, Q, R)
  refine ⟨_, (Tools.distributeUserGrid_eq user _ P Q R).trans hsim, hsim, ?_, ?_⟩
  · intro vec hvec
    constructor
    · intro ws hws
      rw [allWrites_eq hfits hint rfl hvec] at hws
      have h := writeAll_placed hws
      rwa [← List.flatMap_def] at h
    · exact loadParflowB_dist hfits vec
  · obtain ⟨v, hv, hreads⟩ : ∃ v, ReadsBack lower spacing databox v ∧ Reads (Tools.readParflowB enc dflt) (enc.bytes
        (loadParflowB lower spacing databox
          (layoutBlocks (domainGrid databox.nx databox.ny databox.nz) (P, Q, R))).fields) v :=
      reads_file hfits hint rfl hprocs dflt
    refine ⟨v, hv, ?_⟩
    have h := hreads []
    rwa [List.append_nil] at h

/-- The encoding of a machine that keeps the lowest byte of a word first. -/
def bigEndian : Encoding Word where
  int v := beBytes (v % 2 ^ 32).toNat
  double w := List.ofFn w.byteswap
  readInt := unpackInt
  readDouble bs := Word.byteswap fun i => bs.getD i 0
  length_int _ := rfl
  length_double _ := List.length_ofFn
  readInt_int v hlo hhi := by
    unfold INT_MIN at hlo
    unfold INT_MAX at hhi
    exact unpackInt_beBytes (by omega)
  readDouble_double w := by
    have hget : (fun i : Fin 8 => (List.ofFn w.byteswap).getD i 0) = w.byteswap := by
      funext i
      rw [List.getD_eq_getElem _ _ (by rw [List.length_ofFn]; exact i.isLt), List.getElem_ofFn]
    rw [hget, Word.byteswap_byteswap]

/-- Three columns and two rows; every value tells its index. -/
def sixCells : Databox Word := ⟨3, 2, 1, 0, 0, 0, 0, 0, 0, fun i _ => UInt8.ofNat i.toNat⟩

/-- A subvector whose data is the whole databox. -/
def sixCellsVector (_s : Subgrid) : Subvector Word := ⟨domainGrid 3 2 1, sixCells.coeffs⟩

theorem sixCells_pfdist :
    ∃ subgrids, Tools.distributeUserGrid (newSubgrid 0 0 0 3 2 1 0 0 0 (-1)) (2 * 1 * 1) 2 1 1 = some subgrids ∧
      (File.empty.writeAll (allWrites bigEndian (0, 0, 0) (0, 0, 0) subgrids sixCellsVector (2 * 1 * 1)).reverse).size =
        (bigEndian.bytes (loadParflowB (0, 0, 0) (0, 0, 0) sixCells subgrids).fields).length ∧
      ∃ v, ReadsBack (0, 0, 0) (0, 0, 0) sixCells v ∧ Tools.readParflowB bigEndian 0
        (bigEndian.bytes (loadParflowB (0, 0, 0) (0, 0, 0) sixCells subgrids).fields) = some (v, []) := by
  obtain ⟨subgrids, htools, -, hsim, hread⟩ := pfdist_agrees bigEndian (0, 0, 0) (0, 0, 0) 0 sixCells
    (newSubgrid 0 0 0 3 2 1 0 0 0 (-1)) 2 1 1 ⟨rfl, rfl⟩ (by decide) (by decide) (by decide) (by decide) (by decide)
    (by decide) (by decide)
  have hholds : ∀ s ∈ subgrids, HoldsDatabox sixCells (sixCellsVector s) s := by
    intro s _ c _
    show sixCells.coeffs _ = sixCells.coeffs _
    congr 1
    unfold cellIndex Databox.coeff
    show (c.1 - 0) + ((c.2.1 - 0) + (c.2.2 - 0) * 2) * 3 = c.2.2 * 2 * 3 + c.2.1 * 3 + c.1
    ring
  exact ⟨subgrids, htools, ((hsim _ hholds).1 _ (List.reverse_perm _)).1, hread⟩

end Agreement

end ParFlow.Pfb
