import ParFlow.Comm.RegionCells

/-! What the processes of a layout compute with `CommRegFromStencil` fits together:
the receive region of a subgrid is the part of its surroundings that others own,
and what one process sends is what the other receives. -/

namespace ParFlow

open Cover Subregion

/-- The subgrids of all processes: of one resolution and pairwise disjoint. -/
structure Layout where
  allSubgrids : SubgridArray
  sameRes : ∀ s ∈ allSubgrids, ∀ t ∈ allSubgrids, s.SameRes t
  disjoint : allSubgrids.Pairwise fun s t => Disjoint s.cells t.cells

/-- The values that an exchange of these boxes moves for each variable. -/
def cellCount (sa : SubgridArray) : ℤ := (sa.map fun s => s.nx * s.ny * s.nz).sum

namespace Layout

/-- The subgrids of a process. -/
def own (L : Layout) (p : ℤ) : SubgridArray := getGridSubgrids L.allSubgrids p

/-- The regions as process `p` computes them. -/
def comm (L : Layout) (st : StencilShape) (p : ℤ) : CommRegions :=
  commRegFromStencil (gridOn L.allSubgrids p) st

/-- The neighbours as process `p` computes them. -/
def neighbors (L : Layout) (st : StencilShape) (p : ℤ) : SubgridArray :=
  getGridNeighbors (L.own p) L.allSubgrids st

variable {L : Layout} {st : StencilShape} {s t n : Subgrid} {c : Cell} {p q : ℤ}

theorem mem_own : s ∈ L.own p ↔ s ∈ L.allSubgrids ∧ s.process = p := by
  simp [own, getGridSubgrids]

theorem own_disjoint (L : Layout) (p : ℤ) : (L.own p).Pairwise fun s t => Disjoint s.cells t.cells :=
  L.disjoint.sublist List.filter_sublist

/-- A cell lies in at most one subgrid. -/
theorem eq_of_mem (hs : s ∈ L.allSubgrids) (ht : t ∈ L.allSubgrids) (hcs : c ∈ s.cells)
    (hct : c ∈ t.cells) : s = t := by
  by_contra hne
  have : Std.Symm fun s t : Subgrid => Disjoint s.cells t.cells := ⟨fun _ _ h => h.symm⟩
  exact Finset.disjoint_left.mp (L.disjoint.forall hs ht hne) hcs hct

theorem mem_neighbors : n ∈ L.neighbors st p ↔
    n ∈ L.allSubgrids ∧ ∃ s ∈ L.own p, ∃ c ∈ n.cells, Halo st s c := by
  rw [neighbors, getGridNeighbors, List.mem_filter]
  refine and_congr_right fun hn => ?_
  have hres : ∀ s ∈ L.own p, ∀ t ∈ stencilPieces st s, n.SameRes t := fun s hs t ht =>
    (L.sameRes n hn s (mem_own.mp hs).1).trans (stencilPieces_sameRes ht).1.symm
  rw [List.any_eq_true]
  constructor
  · rintro ⟨t, ht, hi⟩
    obtain ⟨s, hs, hts⟩ := List.mem_flatMap.mp ht
    obtain ⟨c, hcn, hct⟩ := (intersectSubgrids_isSome_iff (hres s hs t hts)).mp hi
    exact ⟨s, hs, c, hcn, mem_stencilPieces.mp ⟨t, hts, hct⟩⟩
  · rintro ⟨s, hs, c, hcn, hh⟩
    obtain ⟨t, hts, hct⟩ := mem_stencilPieces.mpr hh
    exact ⟨t, List.mem_flatMap.mpr ⟨s, hs, hts⟩,
      (intersectSubgrids_isSome_iff (hres s hs t hts)).mpr ⟨c, hcn, hct⟩⟩

theorem sendRegion_eq (L : Layout) (st : StencilShape) (p : ℤ) : (L.comm st p).sendRegion =
    (L.own p).map fun s => unionByProcess ((L.neighbors st p).flatMap fun n =>
      (overlap st s n).map fun u => u.setProcess n.process) := by
  simp only [comm, commRegFromStencil, List.map_map]
  refine List.map_congr_left fun s _ => ?_
  exact congrArg unionByProcess (sendPieces_eq _)

theorem recvRegion_eq (L : Layout) (st : StencilShape) (p : ℤ) : (L.comm st p).recvRegion =
    (L.own p).map fun n => unionByProcess ((L.neighbors st p).flatMap fun s =>
      (overlap st s n).map fun u => u.setProcess s.process) := by
  simp only [comm, commRegFromStencil, List.map_map]
  refine List.map_congr_left fun s _ => ?_
  exact congrArg unionByProcess (recvPieces_eq _)

/-! ## Receive regions -/

/-- The cells that a subgrid has to receive. -/
def Needed (L : Layout) (st : StencilShape) (s : Subgrid) (c : Cell) : Prop :=
  c ∉ s.cells ∧ (∃ v ∈ st, c ∈ (s.shift v).cells) ∧ ∃ t ∈ L.allSubgrids, t ≠ s ∧ c ∈ t.cells

instance (L : Layout) (st : StencilShape) (s : Subgrid) (c : Cell) : Decidable (L.Needed st s c) :=
  inferInstanceAs (Decidable (_ ∧ _))

theorem needed_iff : L.Needed st s c ↔ Halo st s c ∧ ∃ t ∈ L.allSubgrids, c ∈ t.cells := by
  simp only [Needed, Halo, mem_shift]
  constructor
  · rintro ⟨h1, h2, t, ht, -, hc⟩
    exact ⟨⟨h1, h2⟩, t, ht, hc⟩
  · rintro ⟨⟨h1, h2⟩, t, ht, hc⟩
    refine ⟨h1, h2, t, ht, ?_, hc⟩
    rintro rfl
    exact h1 hc

/-- The boxes a subgrid receives, before their union: a neighbour's boxes are tagged with its
process and lie in it. -/
theorem mem_received (hn : n ∈ L.own p) {u : Subgrid}
    (hu : u ∈ (L.neighbors st p).flatMap fun s => (overlap st s n).map fun u => u.setProcess s.process) :
    ∃ s ∈ L.allSubgrids, u.process = s.process ∧ u.NonEmpty ∧ u.SameRes s ∧
      ∀ c ∈ u.cells, c ∈ s.cells ∧ Halo st n c := by
  obtain ⟨s, hs, hu⟩ := List.mem_flatMap.mp hu
  obtain ⟨w, hw, rfl⟩ := List.mem_map.mp hu
  have hsL := (mem_neighbors.mp hs).1
  have hsn := L.sameRes s hsL n (mem_own.mp hn).1
  obtain ⟨hne, hr⟩ := overlap_spec hsn hw
  exact ⟨s, hsL, rfl, hne, hr, fun c hc => (mem_overlap hsn).mp ⟨w, hw, hc⟩⟩

theorem received_exact (st : StencilShape) (hn : n ∈ L.own p) :
    let sa := (L.neighbors st p).flatMap fun s => (overlap st s n).map fun u => u.setProcess s.process
    Exact cells (unionByProcess sa) {c | L.Needed st n c} ∧
      ∀ r ∈ unionByProcess sa, ∀ c ∈ r.cells, ∃ s ∈ L.allSubgrids, s.process = r.process ∧ c ∈ s.cells := by
  intro sa
  have hne : ∀ u ∈ sa, u.NonEmpty := fun u hu => by
    obtain ⟨s, -, -, h, -⟩ := mem_received hn hu
    exact h
  have hres : ∀ u ∈ sa, ∀ w ∈ sa, u.SameRes w := fun u hu w hw => by
    obtain ⟨s, hs, -, -, hus, -⟩ := mem_received hn hu
    obtain ⟨t, ht, -, -, hwt, -⟩ := mem_received hn hw
    exact (hus.trans (L.sameRes s hs t ht)).trans hwt.symm
  have hd : ∀ u ∈ sa, ∀ w ∈ sa, u.process ≠ w.process → Disjoint u.cells w.cells := fun u hu w hw hp => by
    obtain ⟨s, hs, hsp, -, -, hcs⟩ := mem_received hn hu
    obtain ⟨t, ht, htp, -, -, hct⟩ := mem_received hn hw
    refine Finset.disjoint_left.mpr fun c hcu hcw => hp ?_
    rw [hsp, htp, eq_of_mem hs ht (hcs c hcu).1 (hct c hcw).1]
  obtain ⟨hex, hpr⟩ := unionByProcess_exact hne hres hd
  refine ⟨hex.congr fun c => ?_, fun r hr c hc => ?_⟩
  · rw [Set.mem_ofPred_eq, Set.mem_ofPred_eq, needed_iff]
    constructor
    · rintro ⟨u, hu, hc⟩
      obtain ⟨s, hs, -, -, -, hcs⟩ := mem_received hn hu
      exact ⟨(hcs c hc).2, s, hs, (hcs c hc).1⟩
    · rintro ⟨hh, s, hs, hc⟩
      obtain ⟨u, hu, hcu⟩ :=
        (mem_overlap (L.sameRes s hs n (mem_own.mp hn).1)).mpr ⟨hc, hh⟩
      exact ⟨u.setProcess s.process, List.mem_flatMap.mpr ⟨s, mem_neighbors.mpr ⟨hs, n, hn, c, hc, hh⟩,
        List.mem_map_of_mem hu⟩, hcu⟩
  · obtain ⟨u, hu, hup, hcu⟩ := hpr r hr c hc
    obtain ⟨s, hs, hsp, -, -, hcs⟩ := mem_received hn hu
    exact ⟨s, hs, hsp.symm.trans hup, (hcs c hcu).1⟩

/-- The receive region of a subgrid holds each cell it needs once, no other cell, and tags each
cell with the process of its owner. -/
theorem recvRegion_once (L : Layout) (st : StencilShape) (p : ℤ) :
    List.Forall₂ (fun s r => ∀ c,
      r.countP (fun u => c ∈ u.cells) = (if L.Needed st s c then 1 else 0) ∧
      ∀ u ∈ r, c ∈ u.cells → ∃ t ∈ L.allSubgrids, c ∈ t.cells ∧ u.process = t.process)
      (L.own p) (L.comm st p).recvRegion := by
  rw [recvRegion_eq, List.forall₂_map_right_iff, List.forall₂_same]
  intro n hn c
  obtain ⟨hex, hpr⟩ := received_exact st hn
  refine ⟨hex.countP c, fun u hu hc => ?_⟩
  obtain ⟨s, hs, hsp, hcs⟩ := hpr u hu c hc
  exact ⟨s, hs, hcs, hsp.symm⟩

/-! ## Both sides of an exchange -/

/-- The boxes of a subgrid `s` of process `p` for process `q`, before their union. -/
def sent (L : Layout) (st : StencilShape) (p q : ℤ) (s : Subgrid) : SubgridArray :=
  ((L.neighbors st p).filter fun n => n.process = q).flatMap fun n => overlap st s n

/-- The boxes of process `p` for a subgrid `n` of process `q`, before their union. -/
def received (L : Layout) (st : StencilShape) (p q : ℤ) (n : Subgrid) : SubgridArray :=
  ((L.neighbors st q).filter fun s => s.process = p).flatMap fun s => overlap st s n

theorem sent_spec (hs : s ∈ L.own p) {u : Subgrid} (hu : u ∈ L.sent st p q s) :
    u.NonEmpty ∧ u.SameRes s := by
  obtain ⟨n, hn, hu⟩ := List.mem_flatMap.mp hu
  exact overlap_spec (L.sameRes s (mem_own.mp hs).1 n
    (mem_neighbors.mp (List.mem_of_mem_filter hn)).1) hu

theorem received_spec (hn : n ∈ L.own q) {u : Subgrid} (hu : u ∈ L.received st p q n) :
    u.NonEmpty ∧ u.SameRes n := by
  obtain ⟨s, hs, hu⟩ := List.mem_flatMap.mp hu
  have hsn := L.sameRes s (mem_neighbors.mp (List.mem_of_mem_filter hs)).1 n (mem_own.mp hn).1
  obtain ⟨hne, hr⟩ := overlap_spec hsn hu
  exact ⟨hne, hr.trans hsn⟩

/-- The union does not see the tags, so the boxes for one process are a plain union. -/
theorem unionByProcess_tagged {f : Subgrid → SubgridArray} {r : Subgrid} (ns : SubgridArray)
    (hf : ∀ u ∈ (ns.filter fun n => n.process = q).flatMap f, u.SameRes r) :
    (unionByProcess (ns.flatMap fun n => (f n).map fun u => u.setProcess n.process)).filter
      (fun u => u.process = q) =
    (unionSubgridArray ((ns.filter fun n => n.process = q).flatMap f)).map fun u => u.setProcess q := by
  rw [unionByProcess_filter, filter_flatMap_setProcess,
    unionSubgridArray_setProcess fun u hu w hw => (hf u hu).trans (hf w hw).symm]

theorem sendRegion_forProcess (L : Layout) (st : StencilShape) (p q : ℤ) :
    (L.comm st p).sendRegion.forProcess q =
      (L.own p).flatMap fun s => (unionSubgridArray (L.sent st p q s)).map fun u => u.setProcess q := by
  rw [sendRegion_eq, Region.forProcess, ← List.flatMap_def, List.filter_flatMap]
  exact List.flatMap_congr fun s hs =>
    unionByProcess_tagged _ fun u hu => (sent_spec (q := q) hs hu).2

theorem recvRegion_forProcess (L : Layout) (st : StencilShape) (p q : ℤ) :
    (L.comm st q).recvRegion.forProcess p =
      (L.own q).flatMap fun n => (unionSubgridArray (L.received st p q n)).map fun u => u.setProcess p := by
  rw [recvRegion_eq, Region.forProcess, ← List.flatMap_def, List.filter_flatMap]
  exact List.flatMap_congr fun n hn =>
    unionByProcess_tagged _ fun u hu => (received_spec (p := p) hn hu).2

/-- With a stencil closed under negation, whoever needs a cell of mine is my neighbour. -/
theorem mem_neighbors_of_halo (hst : ∀ v ∈ st, -v ∈ st) (hs : s ∈ L.own p) (hn : n ∈ L.allSubgrids)
    (hc : c ∈ s.cells) (hh : Halo st n c) : n ∈ L.neighbors st p := by
  obtain ⟨hcn, v, hv, hcv⟩ := hh
  refine mem_neighbors.mpr ⟨hn, s, hs, c - v, hcv, fun hcs => ?_, -v, hst v hv, ?_⟩
  · rw [eq_of_mem (mem_own.mp hs).1 hn hcs hcv] at hc
    exact hcn hc
  · rwa [sub_sub, add_neg_cancel, sub_zero]

/-! ## One subgrid per process -/

theorem own_eq_of_onePerProcess (h : (L.allSubgrids.map fun s => s.process).Nodup)
    (hs : s ∈ L.own p) : L.own p = [s] := by
  obtain ⟨hsL, rfl⟩ := mem_own.mp hs
  have hn : L.allSubgrids.Pairwise fun s t => s.process ≠ t.process := List.pairwise_map.mp h
  have hone : (L.own s.process).length ≤ 1 := by
    rw [Nat.le_one_iff_eq_zero_or_eq_one]
    have hp : (L.own s.process).Pairwise fun s t => s.process ≠ t.process :=
      hn.sublist List.filter_sublist
    rcases hl : L.own s.process with _ | ⟨a, _ | ⟨b, l⟩⟩
    · exact Or.inl rfl
    · exact Or.inr rfl
    · have ha := (mem_own.mp (hl ▸ List.mem_cons_self : a ∈ L.own s.process)).2
      have hb := (mem_own.mp (hl ▸ List.mem_cons_of_mem _ List.mem_cons_self : b ∈ L.own s.process)).2
      rw [hl] at hp
      exact absurd (ha.trans hb.symm) ((List.pairwise_cons.mp hp).1 b List.mem_cons_self)
  obtain ⟨a, ha⟩ := List.length_eq_one_iff.mp (le_antisymm hone (List.length_pos_of_mem hs))
  rw [ha] at hs ⊢
  rw [List.mem_singleton.mp hs]

theorem neighbors_filter_sublist (L : Layout) (st : StencilShape) (p q : ℤ) :
    ((L.neighbors st p).filter fun n => n.process = q).Sublist (L.own q) :=
  List.filter_sublist.filter _

/-- The boxes for one neighbour, whether or not it turns out to be one. -/
theorem flatMap_neighbors {f : Subgrid → SubgridArray} (hq : L.own q = [n])
    (hf : n ∉ L.neighbors st p → f n = []) :
    ((L.neighbors st p).filter fun n => n.process = q).flatMap f = f n := by
  have hsub := L.neighbors_filter_sublist st p q
  rw [hq] at hsub
  rcases List.sublist_singleton.mp hsub with h | h
  · have hn : n.process = q := (mem_own.mp (hq ▸ List.mem_singleton_self n)).2
    rw [h, List.flatMap_nil, hf]
    intro hmem
    have hmem' : n ∈ (L.neighbors st p).filter fun n => n.process = q :=
      List.mem_filter.mpr ⟨hmem, decide_eq_true hn⟩
    rw [h] at hmem'
    exact absurd hmem' List.not_mem_nil
  · rw [h, List.flatMap_singleton]

theorem flatMap_neighbors_nil {f : Subgrid → SubgridArray} (hq : L.own q = []) :
    ((L.neighbors st p).filter fun n => n.process = q).flatMap f = [] := by
  have hsub := L.neighbors_filter_sublist st p q
  rw [hq] at hsub
  rw [List.sublist_nil.mp hsub, List.flatMap_nil]

/-- When every process owns one subgrid and the stencil is closed under negation, the boxes that
`p` sends to `q` are the boxes that `q` receives from `p`, in the same order. -/
theorem sendRegion_eq_recvRegion (L : Layout) (st : StencilShape)
    (hone : (L.allSubgrids.map fun s => s.process).Nodup) (hst : ∀ v ∈ st, -v ∈ st) (p q : ℤ) :
    ((L.comm st p).sendRegion.forProcess q).map (fun u => u.setProcess p) =
      (L.comm st q).recvRegion.forProcess p := by
  rw [sendRegion_forProcess, recvRegion_forProcess]
  rcases hp : L.own p with _ | ⟨s, l⟩
  · have hrecv : ∀ n, L.received st p q n = [] := fun n => flatMap_neighbors_nil hp
    simp only [hrecv]
    simp [unionSubgridArray, Union.levelArray]
  rcases hq : L.own q with _ | ⟨n, l'⟩
  · have hsent : ∀ s, L.sent st p q s = [] := fun s => flatMap_neighbors_nil hq
    simp only [hsent]
    simp [unionSubgridArray, Union.levelArray]
  have hs : s ∈ L.own p := hp ▸ List.mem_cons_self
  have hn : n ∈ L.own q := hq ▸ List.mem_cons_self
  have hp' := own_eq_of_onePerProcess hone hs
  have hq' := own_eq_of_onePerProcess hone hn
  have hsn := L.sameRes s (mem_own.mp hs).1 n (mem_own.mp hn).1
  -- both sides unite the boxes of `s` around `n`
  have hsent : L.sent st p q s = overlap st s n := flatMap_neighbors hq' fun hnot =>
    overlap_eq_nil hsn fun c hc hh => hnot (mem_neighbors_of_halo hst hs (mem_own.mp hn).1 hc hh)
  have hrecv : L.received st p q n = overlap st s n :=
    flatMap_neighbors (f := fun s => overlap st s n) hp' fun hnot => overlap_eq_nil hsn fun c hc hh =>
      hnot (mem_neighbors.mpr ⟨(mem_own.mp hs).1, n, hn, c, hc, hh⟩)
  rw [← hp, ← hq, hp', hq', List.flatMap_singleton, List.flatMap_singleton, hsent, hrecv, List.map_map]
  rfl

/-- Two cells side by side, one per process. -/
def pair : Layout where
  allSubgrids := [newSubgrid 0 0 0 1 1 1 0 0 0 0, newSubgrid 1 0 0 1 1 1 0 0 0 1]
  sameRes := by decide
  disjoint := by decide

theorem pair_send_eq_recv :
    ((pair.comm [(1, 0, 0), (-1, 0, 0)] 0).sendRegion.forProcess 1).map (fun u => u.setProcess 0) =
      (pair.comm [(1, 0, 0), (-1, 0, 0)] 1).recvRegion.forProcess 0 :=
  sendRegion_eq_recvRegion pair _ (by decide) (by decide) 0 1

/-! ## Any number of subgrids per process -/

theorem cellCount_union {sa : SubgridArray} {r : Subgrid} (h : ∀ u ∈ sa, u.NonEmpty ∧ u.SameRes r) :
    Exact cells (unionSubgridArray sa) {c | ∃ u ∈ sa, c ∈ u.cells} ∧
      cellCount ((unionSubgridArray sa).map fun u => u.setProcess q) =
        ((unionSubgridArray sa).map fun u => u.cells.card).sum := by
  obtain ⟨hex, hu⟩ := Union.unionSubgridArray_tiles (fun u hu => (h u hu).1)
    fun u hu w hw => (h u hu).2.trans (h w hw).2.symm
  refine ⟨hex, ?_⟩
  rw [cellCount, List.map_map, Nat.cast_list_sum, List.map_map]
  refine congrArg List.sum (List.map_congr_left fun u hm => ?_)
  exact (card_cells (hu u hm).1).symm

theorem cellCount_flatMap (l : List Subgrid) (f : Subgrid → SubgridArray) :
    cellCount (l.flatMap f) = (l.map fun s => cellCount (f s)).sum := by
  induction l with
  | nil => rfl
  | cons s l ih =>
    rw [List.flatMap_cons, List.map_cons, List.sum_cons, ← ih]
    simp [cellCount]

/-- The cells of `s` that `n` needs. -/
def demand (st : StencilShape) (s n : Subgrid) : Finset Cell := s.cells.filter fun c => Halo st n c

theorem cellCount_send (hst : ∀ v ∈ st, -v ∈ st) (p q : ℤ) :
    cellCount ((L.comm st p).sendRegion.forProcess q) =
      (((L.own p).map fun s => (s.cells.filter fun c => ∃ n ∈ L.own q, Halo st n c).card).sum : ℕ) := by
  rw [sendRegion_forProcess, cellCount_flatMap, Nat.cast_list_sum, List.map_map]
  refine congrArg List.sum (List.map_congr_left fun s hs => ?_)
  obtain ⟨hex, hcount⟩ := cellCount_union (q := q) fun u hu => sent_spec (q := q) hs hu
  rw [hcount, Function.comp_apply, (hex.congr fun c => ?_).card_sum]
  rw [Set.mem_ofPred_eq, Finset.mem_coe, Finset.mem_filter]
  have hres : ∀ n ∈ L.allSubgrids, s.SameRes n := fun n hn => L.sameRes s (mem_own.mp hs).1 n hn
  constructor
  · rintro ⟨u, hu, hc⟩
    obtain ⟨n, hn, hu⟩ := List.mem_flatMap.mp hu
    obtain ⟨hn, hnq⟩ := List.mem_filter.mp hn
    have hnL := (mem_neighbors.mp hn).1
    obtain ⟨hcs, hh⟩ := (mem_overlap (hres n hnL)).mp ⟨u, hu, hc⟩
    exact ⟨hcs, n, mem_own.mpr ⟨hnL, of_decide_eq_true hnq⟩, hh⟩
  · rintro ⟨hcs, n, hn, hh⟩
    obtain ⟨hnL, hnq⟩ := mem_own.mp hn
    obtain ⟨u, hu, hc⟩ := (mem_overlap (hres n hnL)).mpr ⟨hcs, hh⟩
    exact ⟨u, List.mem_flatMap.mpr ⟨n, List.mem_filter.mpr
      ⟨mem_neighbors_of_halo hst hs hnL hcs hh, decide_eq_true hnq⟩, hu⟩, hc⟩

theorem cellCount_recv (L : Layout) (st : StencilShape) (p q : ℤ) :
    cellCount ((L.comm st q).recvRegion.forProcess p) =
      (((L.own p).map fun s => ((L.own q).map fun n => (demand st s n).card).sum).sum : ℕ) := by
  rw [recvRegion_forProcess, cellCount_flatMap, sum_comm, Nat.cast_list_sum, List.map_map]
  refine congrArg List.sum (List.map_congr_left fun n hn => ?_)
  obtain ⟨hex, hcount⟩ := cellCount_union (q := p) fun u hu => received_spec (p := p) hn hu
  rw [hcount, Function.comp_apply]
  -- the subgrids of `p` are disjoint, so their demands tile what `n` receives
  refine congrArg Nat.cast (hex.card_sum_eq ⟨?_, fun c => ?_⟩)
  · exact (L.own_disjoint p).imp fun h => h.mono (Finset.filter_subset _ _) (Finset.filter_subset _ _)
  · have hres : ∀ s ∈ L.allSubgrids, s.SameRes n := fun s hs => L.sameRes s hs n (mem_own.mp hn).1
    simp only [demand, Finset.mem_filter, Set.mem_ofPred_eq]
    constructor
    · rintro ⟨s, hs, hcs, hh⟩
      obtain ⟨hsL, hsp⟩ := mem_own.mp hs
      obtain ⟨u, hu, hc⟩ := (mem_overlap (hres s hsL)).mpr ⟨hcs, hh⟩
      exact ⟨u, List.mem_flatMap.mpr ⟨s, List.mem_filter.mpr
        ⟨mem_neighbors.mpr ⟨hsL, n, hn, c, hcs, hh⟩, decide_eq_true hsp⟩, hu⟩, hc⟩
    · rintro ⟨u, hu, hc⟩
      obtain ⟨s, hs, hu⟩ := List.mem_flatMap.mp hu
      obtain ⟨hs, hsp⟩ := List.mem_filter.mp hs
      have hsL := (mem_neighbors.mp hs).1
      exact ⟨s, mem_own.mpr ⟨hsL, of_decide_eq_true hsp⟩, (mem_overlap (hres s hsL)).mp ⟨u, hu, hc⟩⟩

/-- For distinct processes no cell is sent twice, but a cell that two subgrids of `q` need is received
twice: the counts agree exactly when no two subgrids of `q` reach the same cell of `p`. -/
theorem sendCount_le_recvCount (L : Layout) (st : StencilShape) (hst : ∀ v ∈ st, -v ∈ st) (p q : ℤ)
    (hpq : p ≠ q) :
    cellCount ((L.comm st p).sendRegion.forProcess q) ≤
        cellCount ((L.comm st q).recvRegion.forProcess p) ∧
      (cellCount ((L.comm st p).sendRegion.forProcess q) =
          cellCount ((L.comm st q).recvRegion.forProcess p) ↔
        (L.own q).Pairwise fun n n' => ∀ s ∈ L.own p, ∀ c ∈ s.cells,
          ¬ ((∃ v ∈ st, c ∈ (n.shift v).cells) ∧ ∃ v ∈ st, c ∈ (n'.shift v).cells)) ∧
      ((L.own q).length ≤ 1 → cellCount ((L.comm st p).sendRegion.forProcess q) =
        cellCount ((L.comm st q).recvRegion.forProcess p)) := by
  have hunion : ∀ s c, c ∈ s.cells.filter (fun c => ∃ n ∈ L.own q, Halo st n c) ↔
      ∃ n ∈ L.own q, c ∈ demand st s n := by
    intro s c
    simp only [demand, Finset.mem_filter]
    exact ⟨fun ⟨hc, n, hn, hh⟩ => ⟨n, hn, hc, hh⟩, fun ⟨n, hn, hc, hh⟩ => ⟨hc, n, hn, hh⟩⟩
  obtain ⟨hle, hiff⟩ := sum_le_and_eq_iff (l := L.own p)
    fun s _ => (card_le_sum_and_eq_iff (hunion s)).1
  -- outside `n`, being in its halo is being in one of its shifts
  have hhalo : ∀ s ∈ L.own p, ∀ n ∈ L.own q, ∀ c ∈ s.cells,
      (Halo st n c ↔ ∃ v ∈ st, c ∈ (n.shift v).cells) := by
    intro s hs n hn c hc
    simp only [Halo, mem_shift]
    refine and_iff_right fun hcn => hpq ?_
    rw [← (mem_own.mp hs).2, ← (mem_own.mp hn).2, eq_of_mem (mem_own.mp hs).1 (mem_own.mp hn).1 hc hcn]
  have hcount : cellCount ((L.comm st p).sendRegion.forProcess q) =
      cellCount ((L.comm st q).recvRegion.forProcess p) ↔
        (L.own q).Pairwise fun n n' => ∀ s ∈ L.own p, ∀ c ∈ s.cells,
          ¬ ((∃ v ∈ st, c ∈ (n.shift v).cells) ∧ ∃ v ∈ st, c ∈ (n'.shift v).cells) := by
    rw [cellCount_send hst, cellCount_recv, Nat.cast_inj, hiff]
    refine (forall₂_congr fun s _ => (card_le_sum_and_eq_iff (hunion s)).2).trans ?_
    simp only [List.pairwise_iff_forall_sublist]
    have hmem : ∀ {n n'}, [n, n'].Sublist (L.own q) → n ∈ L.own q ∧ n' ∈ L.own q := fun h =>
      ⟨h.subset List.mem_cons_self, h.subset (List.mem_cons_of_mem _ List.mem_cons_self)⟩
    constructor
    · intro h n n' hsub s hs c hc ⟨h1, h2⟩
      obtain ⟨hn, hn'⟩ := hmem hsub
      exact Finset.disjoint_left.mp (h s hs hsub)
        (Finset.mem_filter.mpr ⟨hc, (hhalo s hs n hn c hc).mpr h1⟩)
        (Finset.mem_filter.mpr ⟨hc, (hhalo s hs n' hn' c hc).mpr h2⟩)
    · intro h s hs n n' hsub
      obtain ⟨hn, hn'⟩ := hmem hsub
      refine Finset.disjoint_left.mpr fun c h1 h2 => ?_
      obtain ⟨hc, h1⟩ := Finset.mem_filter.mp h1
      obtain ⟨-, h2⟩ := Finset.mem_filter.mp h2
      exact h hsub s hs c hc ⟨(hhalo s hs n hn c hc).mp h1, (hhalo s hs n' hn' c hc).mp h2⟩
  refine ⟨?_, hcount, fun hone => hcount.mpr ?_⟩
  · rw [cellCount_send hst, cellCount_recv]
    exact_mod_cast hle
  · rcases hq : L.own q with _ | ⟨n, _ | ⟨n', l⟩⟩
    · exact List.Pairwise.nil
    · exact List.pairwise_singleton _ _
    · simp [hq] at hone

/-- Three cells in an angle, the outer two on one process. -/
def angle : Layout where
  allSubgrids := [newSubgrid 0 0 0 1 1 1 0 0 0 0, newSubgrid 1 0 0 1 1 1 0 0 0 1,
    newSubgrid 0 1 0 1 1 1 0 0 0 1]
  sameRes := by decide
  disjoint := by decide

def sevenPoint : StencilShape :=
  [(0, 0, 0), (-1, 0, 0), (1, 0, 0), (0, -1, 0), (0, 1, 0), (0, 0, -1), (0, 0, 1)]

theorem angle_send_le_recv :
    cellCount ((angle.comm sevenPoint 0).sendRegion.forProcess 1) ≤
        cellCount ((angle.comm sevenPoint 1).recvRegion.forProcess 0) ∧
      cellCount ((angle.comm sevenPoint 1).sendRegion.forProcess 0) =
        cellCount ((angle.comm sevenPoint 0).recvRegion.forProcess 1) :=
  ⟨(sendCount_le_recvCount angle sevenPoint (by decide) 0 1 (by decide)).1,
    (sendCount_le_recvCount angle sevenPoint (by decide) 1 0 (by decide)).2.2 (by decide)⟩

/-- The corner cell goes out once and is expected twice. -/
theorem angle_counts_differ :
    ¬ ∀ (L : Layout) (st : StencilShape), (∀ v ∈ st, -v ∈ st) → ∀ p q : ℤ, p ≠ q →
      cellCount ((L.comm st p).sendRegion.forProcess q) =
        cellCount ((L.comm st q).recvRegion.forProcess p) := by
  intro h
  have heq := h angle sevenPoint (by decide) 0 1 (by decide)
  rw [cellCount_send (by decide), cellCount_recv] at heq
  revert heq
  decide

end Layout
end ParFlow
