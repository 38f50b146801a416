import ParFlow.Grid.UnionExact
import ParFlow.Comm.ComputeDefs

/-! The cells of the regions that `CommRegFromStencil` builds: what lies around a
subgrid, who the neighbours are, and how the union by process tiles a process's part. -/

namespace ParFlow

open Cover Subregion

variable {s t n : Subgrid} {c : Cell} {sa : SubgridArray} {st : StencilShape} {p q : ℤ}

/-! ## Changing the process -/

@[simp] theorem setProcess_process (s : Subgrid) (p : ℤ) : (s.setProcess p).process = p := rfl

@[simp] theorem setProcess_cells (s : Subgrid) (p : ℤ) : (s.setProcess p).cells = s.cells := rfl

@[simp] theorem setProcess_setProcess (s : Subgrid) (p q : ℤ) :
    (s.setProcess p).setProcess q = s.setProcess q := rfl

/-! ## The surroundings of a subgrid -/

theorem mem_shift {v : ℤ × ℤ × ℤ} : c ∈ (s.shift v).cells ↔ c - v ∈ s.cells := by
  simp only [mem_cells_iff, Subregion.shift, Prod.fst_sub, Prod.snd_sub]
  omega

/-- The cells outside a subgrid that its stencil reaches. -/
def Halo (st : StencilShape) (s : Subgrid) (c : Cell) : Prop :=
  c ∉ s.cells ∧ ∃ v ∈ st, c - v ∈ s.cells

instance (st : StencilShape) (s : Subgrid) (c : Cell) : Decidable (Halo st s c) :=
  inferInstanceAs (Decidable (_ ∧ _))

theorem mem_subtract_shift {v : ℤ × ℤ × ℤ} :
    (∃ t ∈ subtractSubgrids (s.shift v) s, c ∈ t.cells) ↔ c - v ∈ s.cells ∧ c ∉ s.cells := by
  have hres : (s.shift v).SameRes s := ⟨rfl, rfl, rfl⟩
  by_cases hs : s.NonEmpty
  · rw [(subtractSubgrids_exact hres hs).1.mem_iff, Set.mem_ofPred_eq, mem_shift]
  -- an empty subgrid has empty shifts, and nothing is cut out of them
  · have hempty : ∀ d, d ∉ s.cells := by
      intro d hd
      refine hs (nonEmpty_axis.mpr fun a => ?_)
      have := mem_cells_axis.mp hd a
      omega
    constructor
    · rintro ⟨t, ht, hc⟩
      exact absurd (mem_shift.mp ((subtractSubgrids_partOf ht).2.2 hc)) (hempty _)
    · rintro ⟨hc, -⟩
      exact absurd hc (hempty _)

theorem mem_stencilPieces : (∃ t ∈ stencilPieces st s, c ∈ t.cells) ↔ Halo st s c := by
  simp only [stencilPieces, List.mem_flatMap]
  constructor
  · rintro ⟨t, ⟨v, hv, ht⟩, hc⟩
    obtain ⟨hin, hout⟩ := mem_subtract_shift.mp ⟨t, ht, hc⟩
    exact ⟨hout, v, hv, hin⟩
  · rintro ⟨hout, v, hv, hin⟩
    obtain ⟨t, ht, hc⟩ := mem_subtract_shift.mpr ⟨hin, hout⟩
    exact ⟨t, ⟨v, hv, ht⟩, hc⟩

theorem stencilPieces_sameRes (ht : t ∈ stencilPieces st s) : t.SameRes s ∧ t.process = s.process := by
  obtain ⟨v, -, ht⟩ := List.mem_flatMap.mp ht
  obtain ⟨hr, hp, -⟩ := subtractSubgrids_partOf ht
  exact ⟨hr.trans ⟨rfl, rfl, rfl⟩, hp⟩

/-! ## The part of one subgrid that another needs -/

/-- The boxes of `s` among the pieces around `n`, as both sides of an exchange compute them. -/
def overlap (st : StencilShape) (s n : Subgrid) : SubgridArray :=
  (stencilPieces st n).filterMap (intersectSubgrids s)

theorem mem_overlap (h : s.SameRes n) :
    (∃ u ∈ overlap st s n, c ∈ u.cells) ↔ c ∈ s.cells ∧ Halo st n c := by
  rw [← mem_stencilPieces]
  simp only [overlap, List.mem_filterMap]
  constructor
  · rintro ⟨u, ⟨t, ht, hu⟩, hc⟩
    rw [(intersectSubgrids_eq_some (h.trans (stencilPieces_sameRes ht).1.symm) hu).1,
      Finset.mem_inter] at hc
    exact ⟨hc.1, t, ht, hc.2⟩
  · rintro ⟨hs, t, ht, hc⟩
    have hst := h.trans (stencilPieces_sameRes ht).1.symm
    rcases hu : intersectSubgrids s t with _ | u
    · exact absurd hc (Finset.disjoint_left.mp (intersectSubgrids_eq_none hst hu) hs)
    · refine ⟨u, ⟨t, ht, hu⟩, ?_⟩
      rw [(intersectSubgrids_eq_some hst hu).1, Finset.mem_inter]
      exact ⟨hs, hc⟩

theorem overlap_spec (h : s.SameRes n) {u : Subgrid} (hu : u ∈ overlap st s n) :
    u.NonEmpty ∧ u.SameRes s := by
  obtain ⟨t, ht, hu⟩ := List.mem_filterMap.mp hu
  obtain ⟨-, hr, -, hne⟩ :=
    intersectSubgrids_eq_some (h.trans (stencilPieces_sameRes ht).1.symm) hu
  exact ⟨hne, hr⟩

theorem overlap_eq_nil (h : s.SameRes n) (hd : ∀ c ∈ s.cells, ¬ Halo st n c) :
    overlap st s n = [] := by
  rw [List.eq_nil_iff_forall_not_mem]
  intro u hu
  obtain ⟨c, hc⟩ := (overlap_spec h hu).1.cells_nonempty
  obtain ⟨hs, hh⟩ := (mem_overlap h).mp ⟨u, hu, hc⟩
  exact hd c hs hh

/-- What `s` sends, by neighbour. -/
theorem sendPieces_eq (ns : SubgridArray) : sendPieces (ns.map (stencilPieces st)) s =
    ns.flatMap fun n => (overlap st s n).map fun u => u.setProcess n.process := by
  rw [sendPieces, List.flatMap_map]
  refine List.flatMap_congr fun n _ => ?_
  rw [overlap, List.map_filterMap]
  refine List.filterMap_congr fun t ht => ?_
  rw [(stencilPieces_sameRes ht).2]

theorem recvPieces_eq (ns : SubgridArray) : recvPieces ns (stencilPieces st n) =
    ns.flatMap fun s => (overlap st s n).map fun u => u.setProcess s.process := by
  rw [recvPieces]
  refine List.flatMap_congr fun s _ => ?_
  rw [overlap, List.map_filterMap]

/-- Filtering lists tagged with a process filters the processes. -/
theorem filter_flatMap_setProcess (ns : SubgridArray) (f : Subgrid → SubgridArray) :
    (ns.flatMap fun n => (f n).map fun u => u.setProcess n.process).filter (fun u => u.process = p) =
      ((ns.filter fun n => n.process = p).flatMap f).map fun u => u.setProcess p := by
  induction ns with
  | nil => rfl
  | cons n ns ih =>
    rw [List.flatMap_cons, List.filter_append, ih, List.filter_cons, List.filter_map]
    by_cases hn : n.process = p
    · simp [hn, Function.comp_def]
    · simp [hn, Function.comp_def]

/-! ## Union by process -/

theorem procArray_aux (sa : SubgridArray) (procs : List ℤ) (h : procs.Nodup) :
    let procs' := sa.foldl (fun procs s => Union.addIndex procs s.process) procs
    procs'.Nodup ∧ ∀ p, p ∈ procs' ↔ p ∈ procs ∨ ∃ s ∈ sa, s.process = p := by
  induction sa generalizing procs with
  | nil => exact ⟨h, fun p => by simp⟩
  | cons s sa ih =>
    obtain ⟨h1, h2⟩ := ih _ (Union.nodup_addIndex h s.process)
    refine ⟨h1, fun p => (h2 p).trans ?_⟩
    rw [Union.mem_addIndex, or_assoc, List.exists_mem_cons_iff, eq_comm (a := p)]

theorem mem_procArray : p ∈ procArray sa ↔ ∃ s ∈ sa, s.process = p := by
  simpa only [procArray, List.not_mem_nil, false_or] using (procArray_aux sa [] List.nodup_nil).2 p

theorem procArray_nodup (sa : SubgridArray) : (procArray sa).Nodup :=
  (procArray_aux sa [] List.nodup_nil).1

/-- The boxes of one process in the union by process are the union of its boxes. -/
theorem unionByProcess_filter (sa : SubgridArray) (p : ℤ) :
    (unionByProcess sa).filter (fun s => s.process = p) =
      (unionSubgridArray (sa.filter fun s => s.process = p)).map fun s => s.setProcess p := by
  have key : ∀ procs : List ℤ, procs.Nodup →
      (procs.flatMap fun q => (unionSubgridArray (sa.filter fun s => s.process = q)).map
        fun s => s.setProcess q).filter (fun s => s.process = p) =
      if p ∈ procs then (unionSubgridArray (sa.filter fun s => s.process = p)).map
        fun s => s.setProcess p else [] := by
    intro procs
    induction procs with
    | nil => intro _; rfl
    | cons q procs ih =>
      intro h
      rw [List.nodup_cons] at h
      rw [List.flatMap_cons, List.filter_append, ih h.2, List.filter_map]
      by_cases hq : q = p
      · subst hq
        simp [h.1, Function.comp_def]
      · simp [hq, Ne.symm hq, Function.comp_def]
  rw [unionByProcess, key _ (procArray_nodup sa)]
  split_ifs with hp
  · rfl
  · have hnil : sa.filter (fun s => s.process = p) = [] := by
      rw [List.filter_eq_nil_iff]
      intro s hs
      simpa using fun h => hp (mem_procArray.mpr ⟨s, hs, h⟩)
    rw [hnil]
    rfl

/-- Boxes of different processes do not meet; then the union by process tiles the cells and every
box carries the process of the boxes it came from. -/
theorem unionByProcess_exact (hne : ∀ s ∈ sa, s.NonEmpty) (hres : ∀ s ∈ sa, ∀ t ∈ sa, s.SameRes t)
    (hd : ∀ s ∈ sa, ∀ t ∈ sa, s.process ≠ t.process → Disjoint s.cells t.cells) :
    Exact cells (unionByProcess sa) {c | ∃ s ∈ sa, c ∈ s.cells} ∧
      ∀ u ∈ unionByProcess sa, ∀ c ∈ u.cells, ∃ s ∈ sa, s.process = u.process ∧ c ∈ s.cells := by
  have hpart : ∀ p, Exact cells
      ((unionSubgridArray (sa.filter fun s => s.process = p)).map fun s => s.setProcess p)
      {c | ∃ s ∈ sa, s.process = p ∧ c ∈ s.cells} := by
    intro p
    have hsub : ∀ s ∈ sa.filter (fun s => s.process = p), s ∈ sa := fun s hs => List.mem_of_mem_filter hs
    have hu := (Union.unionSubgridArray_tiles (fun s hs => hne s (hsub s hs))
      fun s hs t ht => hres s (hsub s hs) t (hsub t ht)).1
    refine (hu.map (fun s => s.setProcess p) cells fun _ _ => rfl).congr fun c => ?_
    simp [and_assoc]
  refine ⟨?_, fun u hu c hc => ?_⟩
  · refine (exact_flatMap _ _ _ (fun p _ => hpart p) ?_).congr fun c => ?_
    · refine (procArray_nodup sa).imp fun {p q} hpq => Set.disjoint_left.mpr ?_
      rintro c ⟨s, hs, rfl, hcs⟩ ⟨t, ht, rfl, hct⟩
      exact Finset.disjoint_left.mp (hd s hs t ht hpq) hcs hct
    · constructor
      · rintro ⟨p, -, s, hs, -, hc⟩
        exact ⟨s, hs, hc⟩
      · rintro ⟨s, hs, hc⟩
        exact ⟨s.process, mem_procArray.mpr ⟨s, hs, rfl⟩, s, hs, rfl, hc⟩
  · obtain ⟨p, -, hu⟩ := List.mem_flatMap.mp hu
    obtain ⟨s, hs, hsp, hcs⟩ := ((hpart p).mem_iff c).mp ⟨u, hu, hc⟩
    obtain ⟨w, -, rfl⟩ := List.mem_map.mp hu
    exact ⟨s, hs, hsp, hcs⟩

theorem collectIndex_setProcess (a : Axis) (sa : SubgridArray) (p : ℤ) :
    Union.collectIndex a (sa.map fun s => s.setProcess p) = Union.collectIndex a sa := by
  rw [Union.collectIndex, Union.collectIndex, List.foldl_map]
  cases a <;> rfl

theorem markSubgrid_setProcess (n : Axis → ℕ) (index : Axis → List ℤ) (block : ℕ → ℕ) (s : Subgrid)
    (p : ℤ) : Union.markSubgrid n index block (s.setProcess p) = Union.markSubgrid n index block s := by
  have hb : Union.boxIndex index (s.setProcess p) = Union.boxIndex index s := by
    funext a
    cases a <;> rfl
  rw [Union.markSubgrid, Union.markSubgrid, hb]

theorem unionBlocks_setProcess (rx ry rz : ℤ) (sa : SubgridArray) (p : ℤ) :
    Union.unionBlocks rx ry rz (sa.map fun s => s.setProcess p) = Union.unionBlocks rx ry rz sa := by
  have hsz : Union.blockSz (sa.map fun s => s.setProcess p) = Union.blockSz sa := by
    funext a
    rw [Union.blockSz, Union.blockSz, collectIndex_setProcess]
  have hbi : Union.blockIndex (sa.map fun s => s.setProcess p) = Union.blockIndex sa := by
    funext a
    rw [Union.blockIndex, Union.blockIndex, collectIndex_setProcess]
  rw [Union.unionBlocks, Union.unionBlocks, hsz, hbi, Union.markBlocks, Union.markBlocks,
    List.foldl_map]
  simp only [markSubgrid_setProcess]

/-- The union does not look at processes. -/
theorem unionSubgridArray_setProcess (hres : ∀ s ∈ sa, ∀ t ∈ sa, s.SameRes t) (p : ℤ) :
    unionSubgridArray (sa.map fun s => s.setProcess p) = unionSubgridArray sa := by
  rcases sa with _ | ⟨s₀, rest⟩
  · rfl
  · have hres₀ : ∀ s ∈ rest, s.SameRes s₀ :=
      fun s hs => hres s (List.mem_cons_of_mem _ hs) s₀ List.mem_cons_self
    have hres₁ : ∀ s ∈ rest.map fun s => s.setProcess p, s.SameRes (s₀.setProcess p) := by
      intro s hs
      obtain ⟨t, ht, rfl⟩ := List.mem_map.mp hs
      exact hres₀ t ht
    rw [Union.unionSubgridArray_eq hres₀, List.map_cons, Union.unionSubgridArray_eq hres₁,
      ← unionBlocks_setProcess _ _ _ (s₀ :: rest) p]
    rfl

end ParFlow
