import ParFlow.Comm.Agreement
import ParFlow.Comm.ComputeDefs
import ParFlow.Comm.VectorCells

/-! The cells of the dependent and the independent region of a subgrid. -/

namespace ParFlow

open Cover Subregion

/-! ## Unit strides -/

theorem setAxis_unitStride {s : Subregion} (h : s.UnitStride) (a : Axis) (i n : ℤ) : (s.setAxis a i n).UnitStride := by
  cases a <;> exact h

theorem cutBelow_unitStride {st : Subgrid × SubgridArray} (h : st.1.UnitStride ∧ ∀ u ∈ st.2, u.UnitStride) (a : Axis) (c : ℤ) :
    (cutBelow a c st).1.UnitStride ∧ ∀ u ∈ (cutBelow a c st).2, u.UnitStride := by
  unfold cutBelow
  split_ifs
  · refine ⟨setAxis_unitStride h.1 _ _ _, ?_⟩
    intro u hu
    rcases List.mem_append.mp hu with hu | hu
    · exact h.2 u hu
    · rw [List.mem_singleton.mp hu]
      exact setAxis_unitStride h.1 _ _ _
  · exact h

theorem cutAbove_unitStride {st : Subgrid × SubgridArray} (h : st.1.UnitStride ∧ ∀ u ∈ st.2, u.UnitStride) (a : Axis) (c : ℤ) :
    (cutAbove a c st).1.UnitStride ∧ ∀ u ∈ (cutAbove a c st).2, u.UnitStride := by
  unfold cutAbove
  split_ifs
  · refine ⟨setAxis_unitStride h.1 _ _ _, ?_⟩
    intro u hu
    rcases List.mem_append.mp hu with hu | hu
    · exact h.2 u hu
    · rw [List.mem_singleton.mp hu]
      exact setAxis_unitStride h.1 _ _ _
  · exact h

theorem subtractSubgrids_unitStride {s t u : Subgrid} (h : s.UnitStride) (hu : u ∈ subtractSubgrids s t) : u.UnitStride := by
  have hcut : ∀ (a : Axis) (c : ℤ × ℤ) (st : Subgrid × SubgridArray), (st.1.UnitStride ∧ ∀ u ∈ st.2, u.UnitStride) →
      (cutAxis a c st).1.UnitStride ∧ ∀ u ∈ (cutAxis a c st).2, u.UnitStride :=
    fun a c st hst => cutAbove_unitStride (cutBelow_unitStride hst a c.1) a c.2
  unfold subtractSubgrids at hu
  dsimp only at hu
  split_ifs at hu
  · rw [List.mem_singleton.mp hu]
    exact h
  · exact (hcut _ _ _ (hcut _ _ _ (hcut _ _ _ ⟨h, by simp⟩))).2 u hu

theorem unionSubgridArray_unitStride {sa : SubgridArray} (hres : ∀ s ∈ sa, ∀ t ∈ sa, s.SameRes t) {u : Subgrid}
    (hu : u ∈ unionSubgridArray sa) : u.UnitStride := by
  rcases sa with _ | ⟨s₀, rest⟩
  · exact absurd hu (by simp [unionSubgridArray, Union.levelArray])
  · rw [Union.unionSubgridArray_eq fun s hs => hres s (List.mem_cons_of_mem _ hs) s₀ List.mem_cons_self] at hu
    obtain ⟨P, -, hP⟩ := List.mem_filterMap.mp hu
    unfold Union.joinedSubgrid at hP
    dsimp only at hP
    split_ifs at hP
    rw [← Option.some.inj hP]
    exact ⟨rfl, rfl, rfl⟩

/-! ## The dependent region -/

/-- A cell is in the union by process when it is in one of the boxes. -/
theorem mem_unionByProcess {sa : SubgridArray} (hne : ∀ s ∈ sa, s.NonEmpty) (hres : ∀ s ∈ sa, ∀ t ∈ sa, s.SameRes t) (c : Cell) :
    (∃ u ∈ unionByProcess sa, c ∈ u.cells) ↔ ∃ s ∈ sa, c ∈ s.cells := by
  have hpart : ∀ p, (∃ u ∈ unionSubgridArray (sa.filter fun s => s.process = p), c ∈ u.cells) ↔
      ∃ s ∈ sa.filter (fun s => s.process = p), c ∈ s.cells := by
    intro p
    exact (Union.unionSubgridArray_tiles (fun s hs => hne s (List.mem_of_mem_filter hs))
      fun s hs t ht => hres s (List.mem_of_mem_filter hs) t (List.mem_of_mem_filter ht)).1.mem_iff c
  constructor
  · rintro ⟨u, hu, hc⟩
    obtain ⟨p, -, hu⟩ := List.mem_flatMap.mp hu
    obtain ⟨w, hw, rfl⟩ := List.mem_map.mp hu
    obtain ⟨s, hs, hcs⟩ := (hpart p).mp ⟨w, hw, hc⟩
    exact ⟨s, List.mem_of_mem_filter hs, hcs⟩
  · rintro ⟨s, hs, hc⟩
    obtain ⟨w, hw, hcw⟩ := (hpart s.process).mpr ⟨s, List.mem_filter.mpr ⟨hs, by simp⟩, hc⟩
    exact ⟨w.setProcess s.process, List.mem_flatMap.mpr ⟨s.process, mem_procArray.mpr ⟨s, hs, rfl⟩,
      List.mem_map_of_mem hw⟩, hcw⟩

theorem unionByProcess_spec {sa : SubgridArray} {r : Subgrid} (h : ∀ s ∈ sa, s.NonEmpty ∧ s.SameRes r) {u : Subgrid}
    (hu : u ∈ unionByProcess sa) : u.NonEmpty ∧ u.SameRes r ∧ u.UnitStride := by
  obtain ⟨p, hp, hu⟩ := List.mem_flatMap.mp hu
  obtain ⟨w, hw, rfl⟩ := List.mem_map.mp hu
  obtain ⟨s, hs, hsp⟩ := mem_procArray.mp hp
  have hmem : s ∈ sa.filter fun s => s.process = p := List.mem_filter.mpr ⟨hs, by simpa using hsp⟩
  have hres : ∀ s ∈ sa.filter (fun s => s.process = p), ∀ t ∈ sa.filter (fun s => s.process = p), s.SameRes t :=
    fun s hs t ht => (h s (List.mem_of_mem_filter hs)).2.trans (h t (List.mem_of_mem_filter ht)).2.symm
  obtain ⟨-, htiles⟩ := Union.unionSubgridArray_tiles (fun s hs => (h s (List.mem_of_mem_filter hs)).1) hres
  have hunit := unionSubgridArray_unitStride hres hw
  exact ⟨(htiles w hw).1, ((htiles w hw).2 s hmem).trans (h s hs).2, hunit⟩

namespace Layout

variable {L : Layout} {st : StencilShape} {s : Subgrid} {p : ℤ} {c : Cell}

/-- What a subgrid sends. -/
def sendArray (L : Layout) (st : StencilShape) (p : ℤ) (s : Subgrid) : SubgridArray :=
  unionByProcess ((L.neighbors st p).flatMap fun n => (overlap st s n).map fun u => u.setProcess n.process)

def depArray (L : Layout) (st : StencilShape) (p : ℤ) (s : Subgrid) : SubgridArray :=
  unionSubgridArray (L.sendArray st p s)

def indArray (L : Layout) (st : StencilShape) (p : ℤ) (s : Subgrid) : SubgridArray :=
  subtractAll s (L.depArray st p s)

/-- The package of process `p`. -/
def pkg (L : Layout) (st : StencilShape) (p : ℤ) : ComputePkg := stencilPkg (gridOn L.allSubgrids p) st

theorem depRegion_eq (L : Layout) (st : StencilShape) (p : ℤ) :
    (L.pkg st p).depRegion = (L.own p).map (L.depArray st p) := by
  show List.zipWith _ (L.own p) (L.comm st p).sendRegion = _
  rw [sendRegion_eq, List.zipWith_map_right, List.zipWith_self]
  rfl

theorem indRegion_eq (L : Layout) (st : StencilShape) (p : ℤ) :
    (L.pkg st p).indRegion = (L.own p).map (L.indArray st p) := by
  show List.zipWith subtractAll (L.own p) (L.pkg st p).depRegion = _
  rw [depRegion_eq, List.zipWith_map_right, List.zipWith_self]
  rfl

/-- The boxes of a subgrid for its neighbours, before their union. -/
theorem overlap_boxes (hs : s ∈ L.own p) {u : Subgrid}
    (hu : u ∈ (L.neighbors st p).flatMap fun n => (overlap st s n).map fun u => u.setProcess n.process) :
    u.NonEmpty ∧ u.SameRes s := by
  obtain ⟨n, hn, hu⟩ := List.mem_flatMap.mp hu
  obtain ⟨w, hw, rfl⟩ := List.mem_map.mp hu
  have hspec := overlap_spec (L.sameRes s (mem_own.mp hs).1 n (mem_neighbors.mp hn).1) hw
  exact hspec

theorem mem_sendArray (hs : s ∈ L.own p) :
    (∃ u ∈ L.sendArray st p s, c ∈ u.cells) ↔ c ∈ s.cells ∧ ∃ n ∈ L.neighbors st p, Halo st n c := by
  unfold sendArray
  rw [mem_unionByProcess (fun u hu => (overlap_boxes hs hu).1) fun u hu w hw =>
    (overlap_boxes hs hu).2.trans (overlap_boxes hs hw).2.symm]
  have hres : ∀ n ∈ L.neighbors st p, s.SameRes n := fun n hn =>
    L.sameRes s (mem_own.mp hs).1 n (mem_neighbors.mp hn).1
  constructor
  · rintro ⟨u, hu, hc⟩
    obtain ⟨n, hn, hu⟩ := List.mem_flatMap.mp hu
    obtain ⟨w, hw, rfl⟩ := List.mem_map.mp hu
    obtain ⟨hcs, hh⟩ := (mem_overlap (hres n hn)).mp ⟨w, hw, hc⟩
    exact ⟨hcs, n, hn, hh⟩
  · rintro ⟨hc, n, hn, hh⟩
    obtain ⟨w, hw, hcw⟩ := (mem_overlap (hres n hn)).mpr ⟨hc, hh⟩
    exact ⟨w.setProcess n.process, List.mem_flatMap.mpr ⟨n, hn, List.mem_map_of_mem hw⟩, hcw⟩

/-- With a stencil closed under negation, it does not matter who is a neighbour. -/
theorem exists_neighbor_halo_iff (hst : ∀ v ∈ st, -v ∈ st) (hs : s ∈ L.own p) (hc : c ∈ s.cells) :
    (∃ n ∈ L.neighbors st p, Halo st n c) ↔ ∃ n ∈ L.allSubgrids, Halo st n c := by
  constructor
  · rintro ⟨n, hn, hh⟩
    exact ⟨n, (mem_neighbors.mp hn).1, hh⟩
  · rintro ⟨n, hn, hh⟩
    exact ⟨n, mem_neighbors_of_halo hst hs hn hc hh, hh⟩

theorem depArray_exact (st : StencilShape) (hs : s ∈ L.own p) :
    Exact cells (L.depArray st p s) {c | c ∈ s.cells ∧ ∃ n ∈ L.neighbors st p, Halo st n c} ∧
      ∀ u ∈ L.depArray st p s, u.NonEmpty ∧ u.SameRes s ∧ u.UnitStride := by
  have hsend : ∀ u ∈ L.sendArray st p s, u.NonEmpty ∧ u.SameRes s ∧ u.UnitStride :=
    fun u hu => unionByProcess_spec (fun w hw => overlap_boxes hs hw) hu
  have hres : ∀ u ∈ L.sendArray st p s, ∀ w ∈ L.sendArray st p s, u.SameRes w :=
    fun u hu w hw => (hsend u hu).2.1.trans (hsend w hw).2.1.symm
  obtain ⟨hex, hu⟩ := Union.unionSubgridArray_tiles (fun u hu => (hsend u hu).1) hres
  refine ⟨hex.congr fun c => mem_sendArray hs, ?_⟩
  intro u hm
  have hne : ∃ w, w ∈ L.sendArray st p s := by
    obtain ⟨c, hc⟩ := (hu u hm).1.cells_nonempty
    obtain ⟨w, hw, -⟩ := (hex.mem_iff c).mp ⟨u, hm, hc⟩
    exact ⟨w, hw⟩
  obtain ⟨w, hw⟩ := hne
  exact ⟨(hu u hm).1, ((hu u hm).2 w hw).trans (hsend w hw).2.1, unionSubgridArray_unitStride hres hm⟩

/-! ## The independent region -/

theorem subtractAll_exact {cr : Subgrid} {dr : SubgridArray} (hdr : ∀ d ∈ dr, d.NonEmpty ∧ d.SameRes cr) :
    Exact cells (subtractAll cr dr) {c | c ∈ cr.cells ∧ ∀ d ∈ dr, c ∉ d.cells} := by
  -- the boxes that are left after each cut tile what is left of the subgrid
  have hrun : ∀ (dr ir : SubgridArray) (t : Set Cell), (∀ d ∈ dr, d.NonEmpty ∧ d.SameRes cr) → Exact cells ir t →
      (∀ u ∈ ir, u.SameRes cr) →
      Exact cells (dr.foldl (fun ir d => ir.flatMap fun s => subtractSubgrids s d) ir) {c | c ∈ t ∧ ∀ d ∈ dr, c ∉ d.cells} := by
    intro dr
    induction dr with
    | nil =>
      intro ir t _ hex hir
      exact hex.congr fun c => by simp
    | cons d dr ih =>
      intro ir t hdr hex hir
      obtain ⟨hd, hdres⟩ := hdr d List.mem_cons_self
      have hcut : ∀ u ∈ ir, Exact cells (subtractSubgrids u d) {c | c ∈ u.cells ∧ c ∉ d.cells} :=
        fun u hu => (subtractSubgrids_exact ((hir u hu).trans hdres.symm) hd).1
      have hnext : Exact cells (ir.flatMap fun s => subtractSubgrids s d) {c | c ∈ t ∧ c ∉ d.cells} := by
        refine (exact_flatMap _ _ _ hcut ?_).congr fun c => ?_
        · refine hex.1.imp fun {u w} huw => Set.disjoint_left.mpr ?_
          rintro c ⟨hcu, -⟩ ⟨hcw, -⟩
          exact Finset.disjoint_left.mp huw hcu hcw
        · constructor
          · rintro ⟨u, hu, hcu, hcd⟩
            exact ⟨(hex.mem_iff c).mp ⟨u, hu, hcu⟩, hcd⟩
          · rintro ⟨hct, hcd⟩
            obtain ⟨u, hu, hcu⟩ := (hex.mem_iff c).mpr hct
            exact ⟨u, hu, hcu, hcd⟩
      have hboxes : ∀ u ∈ ir.flatMap (fun s => subtractSubgrids s d), u.SameRes cr := by
        intro u hu
        obtain ⟨w, hw, hu⟩ := List.mem_flatMap.mp hu
        exact (subtractSubgrids_partOf hu).1.trans (hir w hw)
      have h := ih _ _ (fun d hd => hdr d (List.mem_cons_of_mem _ hd)) hnext hboxes
      refine h.congr fun c => ?_
      simp [and_assoc]
  have hone : Exact cells [cr] {c | c ∈ cr.cells} := exact_singleton cells cr
  exact hrun dr [cr] _ hdr hone (by simpa using ⟨rfl, rfl, rfl⟩)

theorem subtractAll_unitStride {cr : Subgrid} (hcr : cr.UnitStride) (dr : SubgridArray) :
    ∀ u ∈ subtractAll cr dr, u.UnitStride := by
  have hrun : ∀ (dr ir : SubgridArray), (∀ u ∈ ir, u.UnitStride) →
      ∀ u ∈ dr.foldl (fun ir d => ir.flatMap fun s => subtractSubgrids s d) ir, u.UnitStride := by
    intro dr
    induction dr with
    | nil => exact fun ir hir => hir
    | cons d dr ih =>
      intro ir hir
      apply ih
      intro u hu
      obtain ⟨w, hw, hu⟩ := List.mem_flatMap.mp hu
      exact subtractSubgrids_unitStride (hir w hw) hu
  apply hrun
  intro u hu
  rw [List.mem_singleton.mp hu]
  exact hcr

/-- The independent boxes tile what no neighbour reaches. -/
theorem indArray_exact (st : StencilShape) (hs : s ∈ L.own p) : Exact cells (L.indArray st p s)
    {c | c ∈ s.cells ∧ ¬ ∃ n ∈ L.neighbors st p, Halo st n c} := by
  obtain ⟨hdep, hboxes⟩ := depArray_exact st hs
  have hind := subtractAll_exact fun d hd => ⟨(hboxes d hd).1, (hboxes d hd).2.1⟩
  refine hind.congr fun c => and_congr_right fun hc => ?_
  have hiff := hdep.mem_iff c
  rw [Set.mem_ofPred_eq, and_iff_right hc] at hiff
  rw [← hiff]
  push Not
  exact Iff.rfl

/-- The independent boxes and the dependent boxes tile the subgrid; the dependent ones hold the cells
that another subgrid reaches. -/
theorem compute_exact (hst : ∀ v ∈ st, -v ∈ st) (hs : s ∈ L.own p) (hunit : s.UnitStride) :
    Exact cells (L.indArray st p s) {c | c ∈ s.cells ∧ ∀ n ∈ L.allSubgrids, ¬ Halo st n c} ∧
      Exact cells (L.depArray st p s) {c | c ∈ s.cells ∧ ∃ n ∈ L.allSubgrids, Halo st n c} ∧
      (∀ u ∈ L.indArray st p s, u.UnitStride) ∧ ∀ u ∈ L.depArray st p s, u.UnitStride := by
  obtain ⟨hdep, hboxes⟩ := depArray_exact st hs
  refine ⟨(indArray_exact st hs).congr fun c => and_congr_right fun hc => ?_,
    hdep.congr fun c => and_congr_right fun hc => exists_neighbor_halo_iff hst hs hc,
    subtractAll_unitStride hunit _, fun u hu => (hboxes u hu).2.2⟩
  rw [exists_neighbor_halo_iff hst hs hc]
  push Not
  exact Iff.rfl

/-- An independent cell has no neighbour in another subgrid. -/
theorem not_needed_of_ind (hst : ∀ v ∈ st, -v ∈ st) (hs : s ∈ L.own p) (hc : c ∈ s.cells)
    (hind : ∀ n ∈ L.allSubgrids, ¬ Halo st n c) {v : Cell} (hv : v ∈ st) : ¬ L.Needed st s (c + v) := by
  rintro ⟨hout, -, t, ht, hts, hct⟩
  apply hind t ht
  refine ⟨?_, -v, hst v hv, by rwa [sub_neg_eq_add]⟩
  intro hct'
  exact hts (eq_of_mem ht (mem_own.mp hs).1 hct' hc)

end Layout

end ParFlow

/-! The split of a subgrid into dependent and independent cells, for stencils of any shape. The dependent
region is what others receive from the subgrid; the stencil of the computation itself is not looked at. -/

namespace ParFlow

open Cover Subregion

namespace Layout

/-- The two arrays tile the subgrid, and what is independent needs no cell of another subgrid. -/
def SplitsSubgrid (L : Layout) (st : StencilShape) (s : Subgrid) (dep ind : SubgridArray) : Prop :=
  Exact cells (dep ++ ind) ↑s.cells ∧
    ∀ u ∈ ind, ∀ c ∈ u.cells, ∀ v ∈ st, ∀ t ∈ L.allSubgrids, t ≠ s → c + v ∉ t.cells

/-- The regions of a process have one array for each of its subgrids, and split it. -/
def SplitsRegions (L : Layout) (st : StencilShape) (p : ℤ) : Prop :=
  (L.pkg st p).depRegion.length = (L.own p).length ∧ (L.pkg st p).indRegion.length = (L.own p).length ∧
    ∀ (i : ℕ) (s : Subgrid) (dep ind : SubgridArray), (L.own p)[i]? = some s →
      (L.pkg st p).depRegion[i]? = some dep → (L.pkg st p).indRegion[i]? = some ind → L.SplitsSubgrid st s dep ind

/-- A cell of the process that reads another subgrid is read by a subgrid that the process reads. -/
def ReadersAreRead (L : Layout) (st : StencilShape) (p : ℤ) : Prop :=
  ∀ s ∈ L.own p, ∀ c ∈ s.cells, (∃ v ∈ st, ∃ t ∈ L.allSubgrids, t ≠ s ∧ c + v ∈ t.cells) →
    ∃ n ∈ L.neighbors st p, Halo st n c

variable {L : Layout} {st : StencilShape} {s t : Subgrid} {p : ℤ} {c v : Cell}

/-- A stencil with the negative of each offset reads in both directions. -/
theorem readersAreRead_of_neg (hst : ∀ v ∈ st, -v ∈ st) : L.ReadersAreRead st p := by
  rintro s hs c hc ⟨v, hv, t, ht, hts, hct⟩
  refine (exists_neighbor_halo_iff hst hs hc).mpr ⟨t, ht, ?_, -v, hst v hv, by rwa [sub_neg_eq_add]⟩
  intro hct'
  exact hts (eq_of_mem ht (mem_own.mp hs).1 hct' hc)

/-- The arrays always tile the subgrid. -/
theorem dep_ind_exact (hs : s ∈ L.own p) : Exact cells (L.depArray st p s ++ L.indArray st p s) ↑s.cells := by
  refine ((depArray_exact st hs).1.append (indArray_exact st hs) ?_).congr fun c => ?_
  · rw [Set.disjoint_left]
    rintro c ⟨-, hdep⟩ ⟨-, hind⟩
    exact hind hdep
  · rw [Set.mem_union, Set.mem_ofPred_eq, Set.mem_ofPred_eq, ← and_or_left, Finset.mem_coe]
    exact and_iff_left (em _)

theorem splitsSubgrid_iff (hs : s ∈ L.own p) : L.SplitsSubgrid st s (L.depArray st p s) (L.indArray st p s) ↔
    ∀ c ∈ s.cells, (∃ v ∈ st, ∃ t ∈ L.allSubgrids, t ≠ s ∧ c + v ∈ t.cells) →
      ∃ n ∈ L.neighbors st p, Halo st n c := by
  have hind := fun c => (indArray_exact st hs).mem_iff c
  constructor
  · rintro ⟨-, hno⟩ c hc ⟨v, hv, t, ht, hts, hct⟩
    by_contra hnone
    obtain ⟨u, hu, hcu⟩ := (hind c).mpr ⟨hc, hnone⟩
    exact hno u hu c hcu v hv t ht hts hct
  · intro h
    refine ⟨dep_ind_exact hs, ?_⟩
    intro u hu c hcu v hv t ht hts hct
    obtain ⟨hc, hnone⟩ := (hind c).mp ⟨u, hu, hcu⟩
    exact hnone (h c hc ⟨v, hv, t, ht, hts, hct⟩)

/-- The regions are right exactly when reading goes both ways across the boundary of the process. -/
theorem splitsRegions_iff (L : Layout) (st : StencilShape) (p : ℤ) :
    L.SplitsRegions st p ↔ L.ReadersAreRead st p := by
  unfold SplitsRegions
  rw [depRegion_eq, indRegion_eq, List.length_map, List.length_map]
  constructor
  · rintro ⟨-, -, h⟩ s hs
    obtain ⟨i, hi⟩ := List.mem_iff_getElem?.mp hs
    apply (splitsSubgrid_iff hs).mp
    apply h i s _ _ hi
    · rw [List.getElem?_map, hi]
      rfl
    · rw [List.getElem?_map, hi]
      rfl
  · intro h
    refine ⟨rfl, rfl, ?_⟩
    intro i s dep ind hi hdep hind
    rw [List.getElem?_map, hi] at hdep hind
    rw [← Option.some.inj hdep, ← Option.some.inj hind]
    have hs := List.mem_of_getElem? hi
    exact (splitsSubgrid_iff hs).mpr (h s hs)

/-- With a stencil that reads upwards only, the lower of two cells is taken for independent. -/
theorem upward_not_splitsRegions :
    ¬ ∀ (L : Layout) (st : StencilShape) (p : ℤ), L.SplitsRegions st p := by
  intro h
  have hreads := (splitsRegions_iff pair [(1, 0, 0)] 0).mp (h pair [(1, 0, 0)] 0)
  obtain ⟨n, hn, hh⟩ := hreads (newSubgrid 0 0 0 1 1 1 0 0 0 0) (by decide) (0, 0, 0) (by decide)
    ⟨(1, 0, 0), by decide, newSubgrid 1 0 0 1 1 1 0 0 0 1, by decide, by decide, by decide⟩
  have hnone : ∀ n ∈ pair.allSubgrids, ¬ Halo [(1, 0, 0)] n (0, 0, 0) := by decide
  exact hnone n (mem_neighbors.mp hn).1 hh

end Layout

end ParFlow
