import ParFlow.Comm.ExchangeDefs
import ParFlow.Comm.HaloSpec
import ParFlow.Comm.ProjectCells

/-! An exchange from end to end. Both sides of a message go through the same cells in the same order, so
that the values arrive where they belong in any order of the steps. -/

namespace ParFlow

open Cover Subregion GhostExchange

/-! ## Addresses of an invoice -/

theorem eltAddress_eq_cellIndex {ds : Subregion} (h : ds.UnitStride) (c : Cell) : eltAddress ds 0 1 0 c = cellIndex ds c := by
  obtain ⟨hx, hy, hz⟩ := h
  unfold eltAddress cellIndex subvectorEltIndex
  rw [hx, hy, hz, Int.ediv_one, Int.ediv_one, Int.ediv_one]
  ring

theorem addresses_eq_cellIndex {method : PackMethod} (hm : method.Sized) {ds u : Subregion} (hds : ds.UnitStride)
    (hu : u.NonEmpty) (hsub : ∀ c ∈ u.points, c ∈ ds.cells) :
    method.addresses (newCommPkgInfo ds u 0 1) = u.points.map (cellIndex ds) := by
  have hcontained : u.Contained ds := fun c hc => (mem_points_iff hds).mpr (hsub c hc)
  rw [PackMethod.addresses_eq hm hds.strided hu one_pos hcontained]
  have hone : IntLoop.upto 0 1 = [0] := rfl
  unfold commAddresses
  rw [hone, List.flatMap_singleton]
  apply List.map_congr_left
  intro c _
  exact eltAddress_eq_cellIndex hds c

theorem newInvoice_singleton (sa : SubgridArray) (ds : Subregion) (proc : ℤ) :
    newInvoice [sa] [ds] 1 proc = (sa.filter fun u => u.process = proc).map fun u => newCommPkgInfo ds u 0 1 := by
  simp [newInvoice]

theorem points_ne_nil {u : Subregion} (h : u.NonEmpty) : u.points ≠ [] := by
  have hmem : u.corner ∈ u.points :=
    mem_points.mpr ⟨⟨0, ⟨le_rfl, h.1⟩, by simp [corner]⟩, ⟨0, ⟨le_rfl, h.2.1⟩, by simp [corner]⟩, 0, ⟨le_rfl, h.2.2⟩, by simp [corner]⟩
  exact List.ne_nil_of_mem hmem

/-! ## What a process receives -/

namespace Layout

variable {L : Layout} {st : StencilShape} {s n : Subgrid} {p q : ℤ} {c : Cell}

/-- The boxes that a subgrid receives: they share no point, and each holds points around the subgrid that
its process owns. -/
structure RecvBoxes (L : Layout) (st : StencilShape) (n : Subgrid) (boxes : List Subregion) : Prop where
  box : ∀ u ∈ boxes, u.NonEmpty ∧ u.Strided
  disjoint : boxes.Pairwise fun u w => u.points.Disjoint w.points
  owner : ∀ u ∈ boxes, ∀ c ∈ u.points, L.Needed st n c ∧ ∃ t ∈ L.allSubgrids, t.process = u.process ∧ c ∈ t.cells

/-- What a subgrid receives with a stencil. -/
def recvArray (L : Layout) (st : StencilShape) (p : ℤ) (n : Subgrid) : SubgridArray :=
  unionByProcess ((L.neighbors st p).flatMap fun s => (overlap st s n).map fun u => u.setProcess s.process)

theorem recvArray_spec (hn : n ∈ L.own p) {u : Subgrid} (hu : u ∈ L.recvArray st p n) : u.NonEmpty ∧ u.UnitStride := by
  have hboxes : ∀ w ∈ (L.neighbors st p).flatMap (fun s => (overlap st s n).map fun u => u.setProcess s.process),
      w.NonEmpty ∧ w.SameRes n := by
    intro w hw
    obtain ⟨s, hs, -, hne, hres, -⟩ := mem_received hn hw
    exact ⟨hne, hres.trans (L.sameRes s hs n (mem_own.mp hn).1)⟩
  obtain ⟨hne, -, hunit⟩ := unionByProcess_spec hboxes hu
  exact ⟨hne, hunit⟩

theorem recvArray_boxes (st : StencilShape) (hn : n ∈ L.own p) : L.RecvBoxes st n (L.recvArray st p n) := by
  obtain ⟨hex, howner⟩ := received_exact st hn
  constructor
  · intro u hu
    exact ⟨(recvArray_spec hn hu).1, (recvArray_spec hn hu).2.strided⟩
  · refine hex.1.imp_of_mem ?_
    intro u w hu hw hd c hcu hcw
    rw [mem_points_iff (recvArray_spec hn hu).2] at hcu
    rw [mem_points_iff (recvArray_spec hn hw).2] at hcw
    exact Finset.disjoint_left.mp hd hcu hcw
  · intro u hu c hc
    rw [mem_points_iff (recvArray_spec hn hu).2] at hc
    exact ⟨(hex.mem_iff c).mp ⟨u, hu, hc⟩, howner u hu c hc⟩

/-- Every cell that is exchanged lies where projections are right. -/
def FromMinusOne (L : Layout) (st : StencilShape) : Prop :=
  ∀ n ∈ L.allSubgrids, ∀ c, L.Needed st n c → -1 ≤ c.1 ∧ -1 ≤ c.2.1 ∧ -1 ≤ c.2.2

theorem recvArray_fromMinusOne (hL : L.FromMinusOne st) (hn : n ∈ L.own p) {u : Subgrid} (hu : u ∈ L.recvArray st p n) :
    u.FromMinusOne := by
  obtain ⟨hx, hy, hz⟩ := (recvArray_spec hn hu).1
  have hcorner : u.corner ∈ u.points := by
    rw [mem_points_iff (recvArray_spec hn hu).2, mem_cells_iff]
    simp only [corner]
    omega
  exact hL n (mem_own.mp hn).1 u.corner ((recvArray_boxes st hn).owner u hu u.corner hcorner).1

theorem projectParts_boxes {rb : List Cell} (hrb : ∀ o ∈ rb, IsOffset o) (hnodup : rb.Nodup) (hL : L.FromMinusOne st)
    (hn : n ∈ L.own p) : L.RecvBoxes st n (projectParts rb (L.recvArray st p n)) := by
  have hlo : ∀ u ∈ L.recvArray st p n, u.NonEmpty → u.FromMinusOne := fun u hu _ => recvArray_fromMinusOne hL hn hu
  constructor
  · intro u hu
    obtain ⟨o, -, w, -, hw⟩ := mem_projectParts.mp hu
    obtain ⟨hu', rfl⟩ := projectPart_eq_some hw
    exact ⟨hu', projectBox_strided o w⟩
  · exact projectParts_disjoint hlo hrb (received_exact st hn).1.1 (pairwise_inClass hrb hnodup)
  · intro u hu c hc
    obtain ⟨o, ho, w, hw, hwu⟩ := mem_projectParts.mp hu
    have hcw := ((mem_projectPart (hlo w hw) (hrb o ho)).mp ⟨u, hwu, hc⟩).1
    rw [← mem_points_iff (recvArray_spec hn hw).2] at hcw
    have hproc : u.process = w.process := by
      rw [(projectPart_eq_some hwu).2]
      rfl
    rw [hproc]
    exact (recvArray_boxes st hn).owner w hw c hcw

/-! ## Update modes -/

/-- The package of process `p` for an update mode. -/
def modePkg (L : Layout) (mode : UpdateMode) (p : ℤ) : ComputePkg := createComputePkgs (gridOn L.allSubgrids p) mode

/-- The parts of its boxes that a mode exchanges. -/
def exchangedParts : UpdateMode → SubgridArray → List Subregion
  | .rPoint => projectParts black
  | .bPoint => projectParts red
  | _ => id

/-- A mode that exchanges one colour. -/
def OneColour (mode : UpdateMode) : Prop := mode = .rPoint ∨ mode = .bPoint

instance (mode : UpdateMode) : Decidable (OneColour mode) := inferInstanceAs (Decidable (_ ∨ _))

variable {mode : UpdateMode}

theorem modePkg_sendRegion (L : Layout) (mode : UpdateMode) (p : ℤ) :
    (L.modePkg mode p).sendRegion = (L.own p).map fun s => exchangedParts mode (L.sendArray mode.shape p s) := by
  have hproject : ∀ rb, projectRBPoint (L.comm updateAllShape p).sendRegion rb =
      (L.own p).map fun s => projectParts rb (L.sendArray updateAllShape p s) := by
    intro rb
    rw [projectRBPoint_eq, sendRegion_eq, List.map_map]
    rfl
  cases mode with
  | rPoint => exact hproject black
  | bPoint => exact hproject red
  | all | all2 | godunov | velZ | pgs1 | pgs2 | pgs3 | pgs4 => exact sendRegion_eq L _ p

theorem modePkg_recvRegion (L : Layout) (mode : UpdateMode) (p : ℤ) :
    (L.modePkg mode p).recvRegion = (L.own p).map fun n => exchangedParts mode (L.recvArray mode.shape p n) := by
  have hproject : ∀ rb, projectRBPoint (L.comm updateAllShape p).recvRegion rb =
      (L.own p).map fun s => projectParts rb (L.recvArray updateAllShape p s) := by
    intro rb
    rw [projectRBPoint_eq, recvRegion_eq, List.map_map]
    rfl
  cases mode with
  | rPoint => exact hproject black
  | bPoint => exact hproject red
  | all | all2 | godunov | velZ | pgs1 | pgs2 | pgs3 | pgs4 => exact recvRegion_eq L _ p

theorem exchangedParts_filter (mode : UpdateMode) (sa : SubgridArray) (p : ℤ) :
    (exchangedParts mode sa).filter (fun u => u.process = p) = exchangedParts mode (sa.filter fun s => s.process = p) := by
  cases mode with
  | rPoint => exact projectParts_filter black sa p
  | bPoint => exact projectParts_filter red sa p
  | all | all2 | godunov | velZ | pgs1 | pgs2 | pgs3 | pgs4 => rfl

theorem exchangedParts_setProcess (mode : UpdateMode) (sa : SubgridArray) (p : ℤ) :
    exchangedParts mode (sa.map fun s => s.setProcess p) = (exchangedParts mode sa).map fun u => u.setProcess p := by
  cases mode with
  | rPoint => exact projectParts_setProcess black sa p
  | bPoint => exact projectParts_setProcess red sa p
  | all | all2 | godunov | velZ | pgs1 | pgs2 | pgs3 | pgs4 => rfl

theorem exchangedParts_boxes (hL : OneColour mode → L.FromMinusOne mode.shape) (hn : n ∈ L.own p) :
    L.RecvBoxes mode.shape n (exchangedParts mode (L.recvArray mode.shape p n)) := by
  cases mode with
  | rPoint => exact projectParts_boxes black_isOffset (by decide) (hL (Or.inl rfl)) hn
  | bPoint => exact projectParts_boxes red_isOffset (by decide) (hL (Or.inr rfl)) hn
  | all | all2 | godunov | velZ | pgs1 | pgs2 | pgs3 | pgs4 => exact recvArray_boxes _ hn

theorem cubeShape_neg {m : ℤ} {v : Cell} (hv : v ∈ cubeShape m) : -v ∈ cubeShape m := by
  unfold cubeShape at hv ⊢
  rw [IntLoop.mem_nest, IntLoop.mem_upto, IntLoop.mem_upto, IntLoop.mem_upto] at hv ⊢
  simp only [Prod.fst_neg, Prod.snd_neg]
  omega

theorem shape_neg (mode : UpdateMode) : ∀ v ∈ mode.shape, -v ∈ mode.shape := by
  cases mode with
  | all | rPoint | bPoint | all2 | velZ => decide
  | godunov => decide +kernel
  | pgs1 | pgs2 | pgs3 | pgs4 => exact fun v hv => cubeShape_neg hv

theorem exists_shape (mode : UpdateMode) : ∃ v, v ∈ mode.shape := by
  cases mode with
  | all | rPoint | bPoint | all2 | velZ | godunov => exact ⟨_, List.mem_cons_self⟩
  | pgs1 | pgs2 | pgs3 | pgs4 => exact ⟨0, IntLoop.mem_nest.mpr (by simp [IntLoop.mem_upto])⟩

theorem ghost_nonneg {g : ℤ} (hg : Reach mode.shape g) : 0 ≤ g := by
  obtain ⟨v, hv⟩ := exists_shape mode
  exact (abs_nonneg _).trans (hg v hv).1

/-! ## Both sides of a message -/

/-- The cells that `p` sends to `q`, in the order of the message. -/
def sentCells (L : Layout) (mode : UpdateMode) (p q : ℤ) : List Cell :=
  ((L.modePkg mode p).sendRegion.forProcess q).flatMap points

theorem recvBoxes_nonEmpty (hL : OneColour mode → L.FromMinusOne mode.shape) {u : Subregion} (hu : u ∈ (L.modePkg mode q).recvRegion.forProcess p) : u.NonEmpty := by
  rw [Region.forProcess, modePkg_recvRegion] at hu
  obtain ⟨boxes, hboxes, hu⟩ := List.mem_flatten.mp (List.mem_of_mem_filter hu)
  obtain ⟨n, hn, rfl⟩ := List.mem_map.mp hboxes
  exact ((exchangedParts_boxes hL hn).box u hu).1

section Sides

variable (hone : L.OnePerProcess)

include hone

theorem forProcess_modePkg (mode : UpdateMode) (p q : ℤ) :
    ((L.modePkg mode p).sendRegion.forProcess q).map (fun u => u.setProcess p) = (L.modePkg mode q).recvRegion.forProcess p := by
  have hagree := sendRegion_eq_recvRegion L mode.shape hone (shape_neg mode) p q
  have hflat : ∀ (sa : SubgridArray) (f : Subgrid → SubgridArray), sa.length ≤ 1 →
      (sa.map fun s => exchangedParts mode (f s)).flatten = exchangedParts mode (sa.flatMap f) := by
    intro sa f hlen
    rcases sa with _ | ⟨s, _ | ⟨t, l⟩⟩
    · cases mode <;> rfl
    · simp
    · simp at hlen
  have hlen : ∀ p, (L.own p).length ≤ 1 := by
    intro p
    rcases hp : L.own p with _ | ⟨s, l⟩
    · simp
    · rw [← hp, own_eq_of_onePerProcess hone (hp ▸ List.mem_cons_self)]
      simp
  rw [sendRegion_eq, recvRegion_eq] at hagree
  unfold Region.forProcess at hagree ⊢
  rw [modePkg_sendRegion, modePkg_recvRegion, hflat _ _ (hlen p), hflat _ _ (hlen q), exchangedParts_filter,
    exchangedParts_filter, ← exchangedParts_setProcess]
  rw [← List.flatMap_def, ← List.flatMap_def] at hagree
  exact congrArg (exchangedParts mode) hagree

theorem sentCells_eq (mode : UpdateMode) (p q : ℤ) :
    L.sentCells mode p q = ((L.modePkg mode q).recvRegion.forProcess p).flatMap points := by
  rw [← forProcess_modePkg hone, List.flatMap_map]
  rfl

variable (hL : OneColour mode → L.FromMinusOne mode.shape)

include hL

theorem mem_sentCells (hc : c ∈ L.sentCells mode p q) :
    ∃ n t, L.own q = [n] ∧ L.own p = [t] ∧ L.Needed mode.shape n c ∧ c ∈ t.cells := by
  rw [sentCells_eq hone, Region.forProcess, modePkg_recvRegion] at hc
  obtain ⟨u, hu, hcu⟩ := List.mem_flatMap.mp hc
  obtain ⟨hu, hproc⟩ := List.mem_filter.mp hu
  obtain ⟨boxes, hboxes, hu⟩ := List.mem_flatten.mp hu
  obtain ⟨n, hn, rfl⟩ := List.mem_map.mp hboxes
  obtain ⟨hneed, t, ht, htu, hct⟩ := (exchangedParts_boxes hL hn).owner u hu c hcu
  have htp : t ∈ L.own p := mem_own.mpr ⟨ht, htu.trans (of_decide_eq_true hproc)⟩
  exact ⟨n, t, own_eq_of_onePerProcess hone hn, own_eq_of_onePerProcess hone htp, hneed, hct⟩

theorem sendBoxes_nonEmpty {u : Subregion} (hu : u ∈ (L.modePkg mode p).sendRegion.forProcess q) : u.NonEmpty := by
  have hmem : u.setProcess p ∈ (L.modePkg mode q).recvRegion.forProcess p := by
    rw [← forProcess_modePkg hone]
    exact List.mem_map_of_mem hu
  have hne : (u.setProcess p).NonEmpty := recvBoxes_nonEmpty hL hmem
  exact hne

theorem sentCells_nodup (p q : ℤ) : (L.sentCells mode p q).Nodup := by
  rw [sentCells_eq hone, Region.forProcess, modePkg_recvRegion]
  rcases hq : L.own q with _ | ⟨n, l⟩
  · exact List.nodup_nil
  · have hn : n ∈ L.own q := hq ▸ List.mem_cons_self
    have hboxes := exchangedParts_boxes hL hn
    rw [← hq, own_eq_of_onePerProcess hone hn, List.map_singleton, List.flatten_singleton, List.nodup_flatMap]
    refine ⟨?_, hboxes.disjoint.sublist List.filter_sublist⟩
    intro u hu
    exact points_nodup (hboxes.box u (List.mem_of_mem_filter hu)).2

end Sides

/-! ## The plan of an exchange -/

/-- The data space of the vector of process `p`. -/
def vectorSpace (L : Layout) (g p : ℤ) : Subgrid :=
  ((L.own p).map (ghostSpace · g)).headD (newSubgrid 0 0 0 0 0 0 0 0 0 p)

def vectorPkg (L : Layout) (mode : UpdateMode) (g p : ℤ) : CommPkg :=
  newCommPkg (L.modePkg mode p).sendRegion (L.modePkg mode p).recvRegion ((L.own p).map (ghostSpace · g)) 1

theorem vectorSpace_eq {g : ℤ} (hn : L.own p = [n]) : L.vectorSpace g p = ghostSpace n g := by
  rw [vectorSpace, hn]
  rfl

theorem mem_procArray_flatten {r : Region} : q ∈ procArray r.flatten ↔ r.forProcess q ≠ [] := by
  rw [mem_procArray, Region.forProcess, ne_eq, List.filter_eq_nil_iff]
  simp only [decide_eq_true_eq, not_forall, not_not, exists_prop]

theorem flatMap_points_ne_nil {boxes : List Subregion} (h : ∀ u ∈ boxes, u.NonEmpty) :
    boxes.flatMap points ≠ [] ↔ boxes ≠ [] := by
  rw [not_iff_not, List.flatMap_eq_nil_iff]
  constructor
  · intro hall
    rw [List.eq_nil_iff_forall_not_mem]
    intro u hu
    exact points_ne_nil (h u hu) (hall u hu)
  · rintro rfl
    simp

/-- An invoice goes through the points of the subregions of its process. -/
theorem invoiceAddresses_eq {method : PackMethod} (hm : method.Sized) {region : Region} {sa : SubgridArray}
    (hregion : region = [sa]) {ds : Subregion} (hds : ds.UnitStride) (hne : region.forProcess q ≠ [])
    (hbox : ∀ u ∈ region.forProcess q, u.NonEmpty) (hsub : ∀ c ∈ (region.forProcess q).flatMap points, c ∈ ds.cells) :
    invoiceAddresses method ((procArray region.flatten).map fun p => (p, newInvoice region [ds] 1 p)) q =
      ((region.forProcess q).flatMap points).map (cellIndex ds) := by
  have hmem : q ∈ procArray region.flatten := mem_procArray_flatten.mpr hne
  have hinvoice : newInvoice region [ds] 1 q = (region.forProcess q).map fun u => newCommPkgInfo ds u 0 1 := by
    rw [hregion, newInvoice_singleton, Region.forProcess, List.flatten_singleton]
  unfold invoiceAddresses
  rw [List.lookup_graph (fun p => newInvoice region [ds] 1 p) hmem, Option.getD_some, hinvoice,
    List.flatMap_map, List.map_flatMap]
  apply List.flatMap_congr
  intro u hu
  apply addresses_eq_cellIndex hm hds (hbox u hu)
  intro c hc
  exact hsub c (List.mem_flatMap.mpr ⟨u, hu, hc⟩)

theorem newVectorCommPkg_eq (hone : L.OnePerProcess) (mode : UpdateMode) (g p : ℤ) :
    newVectorCommPkg (gridOn L.allSubgrids p) g (createComputePkgs (gridOn L.allSubgrids p) mode) = some (L.vectorPkg mode g p) := by
  unfold newVectorCommPkg
  rw [if_neg]
  · rfl
  · show ¬ (L.own p).length > 1
    rcases hp : L.own p with _ | ⟨s, l⟩
    · simp
    · rw [← hp, own_eq_of_onePerProcess hone (hp ▸ List.mem_cons_self)]
      simp

/-- Both sides of the exchange go through the cells of `sentCells`. -/
theorem exchangePlan_keyed (hone : L.OnePerProcess) (hL : OneColour mode → L.FromMinusOne mode.shape) {g : ℤ}
    (hg : Reach mode.shape g) {method : ℤ → PackMethod} (hm : ∀ p, (method p).Sized) :
    (exchangePlan (L.vectorPkg mode g) method).Keyed (L.sentCells mode) (fun p => cellIndex (L.vectorSpace g p))
      (fun p => {c | ∃ s ∈ L.own p, c ∈ s.cells}) (fun p => {c | c ∈ (L.vectorSpace g p).cells}) := by
  have hsub : ∀ p, ∀ s ∈ L.own p, ∀ c ∈ s.cells, c ∈ (L.vectorSpace g p).cells := by
    intro p s hs c hc
    rw [vectorSpace_eq (own_eq_of_onePerProcess hone hs)]
    exact mem_ghostSpace_of_mem (ghost_nonneg hg) hc
  have hhalo : ∀ p n c, L.own p = [n] → L.Needed mode.shape n c → c ∈ (ghostSpace n g).cells := by
    intro p n c hn hneed
    exact mem_ghostSpace_of_halo hg (needed_iff.mp hneed).1
  constructor
  · intro p q
    have hdests : (exchangePlan (L.vectorPkg mode g) method).dests p = procArray (L.modePkg mode p).sendRegion.flatten := by
      simp [exchangePlan, vectorPkg, newCommPkg, Function.comp_def]
    rw [hdests, mem_procArray_flatten, sentCells, flatMap_points_ne_nil fun u hu => sendBoxes_nonEmpty hone hL hu]
  · intro p q
    have hsrcs : (exchangePlan (L.vectorPkg mode g) method).srcs q = procArray (L.modePkg mode q).recvRegion.flatten := by
      simp [exchangePlan, vectorPkg, newCommPkg, Function.comp_def]
    rw [hsrcs, mem_procArray_flatten, sentCells_eq hone, flatMap_points_ne_nil fun u hu => recvBoxes_nonEmpty hL hu]
  · intro p q hne
    obtain ⟨c, hc⟩ := List.exists_mem_of_ne_nil _ hne
    obtain ⟨n, s, -, hs, -, -⟩ := mem_sentCells hone hL hc
    have hregion : (L.modePkg mode p).sendRegion = [exchangedParts mode (L.sendArray mode.shape p s)] := by
      rw [modePkg_sendRegion, hs]
      rfl
    rw [vectorSpace_eq hs]
    show invoiceAddresses (method p) (newCommPkg _ _ ((L.own p).map (ghostSpace · g)) 1).sends q = _
    rw [hs, List.map_singleton]
    refine invoiceAddresses_eq (hm p) hregion ⟨rfl, rfl, rfl⟩ ?_ (fun u hu => sendBoxes_nonEmpty hone hL hu) ?_
    · rwa [← flatMap_points_ne_nil fun u hu => sendBoxes_nonEmpty hone hL hu]
    · intro d hd
      obtain ⟨-, t, -, ht, -, hdt⟩ := mem_sentCells hone hL hd
      rw [hs, List.singleton_inj] at ht
      exact mem_ghostSpace_of_mem (ghost_nonneg hg) (ht ▸ hdt)
  · intro p q hne
    obtain ⟨c, hc⟩ := List.exists_mem_of_ne_nil _ hne
    obtain ⟨n, s, hn, -, -, -⟩ := mem_sentCells hone hL hc
    have hregion : (L.modePkg mode q).recvRegion = [exchangedParts mode (L.recvArray mode.shape q n)] := by
      rw [modePkg_recvRegion, hn]
      rfl
    rw [vectorSpace_eq hn, sentCells_eq hone]
    rw [sentCells_eq hone] at hne
    show invoiceAddresses (method q) (newCommPkg _ _ ((L.own q).map (ghostSpace · g)) 1).recvs p = _
    rw [hn, List.map_singleton]
    refine invoiceAddresses_eq (hm q) hregion ⟨rfl, rfl, rfl⟩ ?_ (fun u hu => recvBoxes_nonEmpty hL hu) ?_
    · rwa [← flatMap_points_ne_nil fun u hu => recvBoxes_nonEmpty hL hu]
    · intro d hd
      rw [← sentCells_eq hone] at hd
      obtain ⟨m, -, hm', -, hneed, -⟩ := mem_sentCells hone hL hd
      rw [hn, List.singleton_inj] at hm'
      exact hhalo q n d hn (hm' ▸ hneed)
  · exact sentCells_nodup hone hL
  · intro p q c hc
    obtain ⟨-, t, -, ht, -, hct⟩ := mem_sentCells hone hL hc
    exact ⟨t, ht ▸ List.mem_singleton_self t, hct⟩
  · intro p q c hc
    obtain ⟨n, -, hn, -, hneed, -⟩ := mem_sentCells hone hL hc
    refine ⟨?_, ?_⟩
    · show c ∈ (L.vectorSpace g q).cells
      rw [vectorSpace_eq hn]
      exact hhalo q n c hn hneed
    · rintro ⟨m, hm', hcm⟩
      rw [hn, List.mem_singleton] at hm'
      exact hneed.1 (hm' ▸ hcm)
  · rintro p c ⟨s, hs, hc⟩
    exact hsub p s hs c hc
  · rintro p p' c ⟨s, hs, hc⟩ ⟨t, ht, hct⟩
    have heq := eq_of_mem (mem_own.mp hs).1 (mem_own.mp ht).1 hc hct
    rw [← (mem_own.mp hs).2, ← (mem_own.mp ht).2, heq]
  · intro p c hc d hd he
    exact cellIndex_inj hc hd he

/-! ## What an exchange does -/

/-- The cells in the receive region of a subgrid. -/
def Receives (L : Layout) (mode : UpdateMode) (s : Subgrid) (c : Cell) : Prop :=
  ∃ u ∈ (createComputePkgs (gridOn L.allSubgrids s.process) mode).recvRegion.flatten, c ∈ u.points

/-- The cells that are received hold the values that their owners started with, and all others are as
they were. -/
structure Exchanged {α : Type} (L : Layout) (mode : UpdateMode) (g : ℤ) (σ : State ℤ ℤ α) (s : Subgrid) : Prop where
  received : ∀ c, L.Receives mode s c → c ∈ (ghostSpace s g).cells ∧ ∃ t ∈ L.allSubgrids, c ∈ t.cells ∧
    σ.data s.process (cellIndex (ghostSpace s g) c) = σ.started t.process (cellIndex (ghostSpace t g) c)
  others : ∀ c ∈ (ghostSpace s g).cells, ¬ L.Receives mode s c →
    σ.data s.process (cellIndex (ghostSpace s g) c) = σ.started s.process (cellIndex (ghostSpace s g) c)
  owned : ∀ c ∈ s.cells,
    σ.data s.process (cellIndex (ghostSpace s g) c) = σ.started s.process (cellIndex (ghostSpace s g) c)
  outside : ∀ c ∈ (ghostSpace s g).cells, (∀ t ∈ L.allSubgrids, c ∉ t.cells) →
    σ.data s.process (cellIndex (ghostSpace s g) c) = σ.started s.process (cellIndex (ghostSpace s g) c)

theorem receives_iff (hone : L.OnePerProcess) : L.Receives mode s c ↔ ∃ p, c ∈ L.sentCells mode p s.process := by
  simp only [sentCells_eq hone]
  constructor
  · rintro ⟨u, hu, hc⟩
    exact ⟨u.process, List.mem_flatMap.mpr ⟨u, List.mem_filter.mpr ⟨hu, decide_eq_true rfl⟩, hc⟩⟩
  · rintro ⟨p, hc⟩
    obtain ⟨u, hu, hc⟩ := List.mem_flatMap.mp hc
    exact ⟨u, List.mem_of_mem_filter hu, hc⟩

theorem exchanged_of_finished (hone : L.OnePerProcess) (hL : OneColour mode → L.FromMinusOne mode.shape) {g : ℤ}
    (hg : Reach mode.shape g) {method : ℤ → PackMethod} (hm : ∀ p, (method p).Sized) {α : Type} {σ : State ℤ ℤ α}
    (hσ : Reachable (exchangePlan (L.vectorPkg mode g) method) σ) (hs : s ∈ L.allSubgrids)
    (hfin : σ.phase s.process = .finished) : L.Exchanged mode g σ s := by
  have hown : L.own s.process = [s] := own_eq_of_onePerProcess hone (mem_own.mpr ⟨hs, rfl⟩)
  obtain ⟨hreceived, hothers⟩ := hσ.finished_keys (exchangePlan_keyed hone hL hg hm) hfin
  have hspace : L.vectorSpace g s.process = ghostSpace s g := vectorSpace_eq hown
  -- a cell that is received has an owner, and lies outside the subgrid
  have hneed : ∀ {c}, L.Receives mode s c → L.Needed mode.shape s c := by
    intro c hc
    obtain ⟨p, hp⟩ := (receives_iff hone).mp hc
    obtain ⟨n, t, hn, -, hneed, -⟩ := mem_sentCells hone hL hp
    rw [hown, List.singleton_inj] at hn
    exact hn ▸ hneed
  have hkeep : ∀ c ∈ (ghostSpace s g).cells, ¬ L.Receives mode s c →
      σ.data s.process (cellIndex (ghostSpace s g) c) = σ.started s.process (cellIndex (ghostSpace s g) c) := by
    intro c hc hno
    rw [receives_iff hone, not_exists] at hno
    rw [← hspace] at hc ⊢
    exact hothers c hc hno
  constructor
  · intro c hc
    refine ⟨mem_ghostSpace_of_halo hg (needed_iff.mp (hneed hc)).1, ?_⟩
    obtain ⟨p, hp⟩ := (receives_iff hone).mp hc
    obtain ⟨n, t, -, ht, -, hct⟩ := mem_sentCells hone hL hp
    obtain ⟨htL, rfl⟩ := mem_own.mp (ht ▸ List.mem_singleton_self t)
    refine ⟨t, htL, hct, ?_⟩
    rw [← hspace, ← vectorSpace_eq ht]
    exact hreceived _ c hp
  · exact hkeep
  · intro c hc
    exact hkeep c (mem_ghostSpace_of_mem (ghost_nonneg hg) hc) fun hr => (hneed hr).1 hc
  · intro c hc hout
    apply hkeep c hc
    intro hr
    obtain ⟨-, t, ht, hct⟩ := needed_iff.mp (hneed hr)
    exact hout t ht hct

/-- In any order of the steps, a process that has waited for its exchange holds the values of the owners;
and from any state on, all processes can come to that point. -/
theorem vectorUpdate_exchanges (L : Layout) (hone : L.OnePerProcess) (mode : UpdateMode)
    (hL : OneColour mode → L.FromMinusOne mode.shape) (g : ℤ) (hg : Reach mode.shape g) (method : ℤ → PackMethod)
    (hm : ∀ p, (method p).Sized) :
    ∃ pkg : ℤ → CommPkg, (∀ p, newVectorCommPkg (gridOn L.allSubgrids p) g
        (createComputePkgs (gridOn L.allSubgrids p) mode) = some (pkg p)) ∧
      ∀ (α : Type) (σ : State ℤ ℤ α), Reachable (exchangePlan pkg method) σ →
        (∀ s ∈ L.allSubgrids, σ.phase s.process = .finished → L.Exchanged mode g σ s) ∧
        ∃ σ', Relation.ReflTransGen (Step (exchangePlan pkg method)) σ σ' ∧
          ∀ s ∈ L.allSubgrids, σ'.phase s.process = .finished := by
  refine ⟨L.vectorPkg mode g, newVectorCommPkg_eq hone mode g, ?_⟩
  intro α σ hσ
  constructor
  · intro s hs hfin
    exact exchanged_of_finished hone hL hg hm hσ hs hfin
  · have hkeyed := exchangePlan_keyed hone hL hg hm
    -- only processes with a subgrid take part
    have hranks : ∀ p q, L.sentCells mode p q ≠ [] →
        p ∈ (L.allSubgrids.map fun s => s.process).toFinset ∧ q ∈ (L.allSubgrids.map fun s => s.process).toFinset := by
      intro p q hne
      obtain ⟨c, hc⟩ := List.exists_mem_of_ne_nil _ hne
      obtain ⟨n, t, hn, ht, -, -⟩ := mem_sentCells hone hL hc
      obtain ⟨hnL, rfl⟩ := mem_own.mp (hn ▸ List.mem_singleton_self n)
      obtain ⟨htL, rfl⟩ := mem_own.mp (ht ▸ List.mem_singleton_self t)
      exact ⟨List.mem_toFinset.mpr (List.mem_map_of_mem htL), List.mem_toFinset.mpr (List.mem_map_of_mem hnL)⟩
    obtain ⟨σ', hrun, hall⟩ := hσ.exists_finished hkeyed.wellFormed
      (fun p _ q hq => (hranks p q ((hkeyed.mem_dests p q).mp hq)).2)
      (fun q _ p hp => (hranks p q ((hkeyed.mem_srcs p q).mp hp)).1)
    exact ⟨σ', hrun, fun s hs => hall s.process (List.mem_toFinset.mpr (List.mem_map_of_mem hs))⟩

theorem fromMinusOne_of_nonneg (h : ∀ s ∈ L.allSubgrids, 0 ≤ s.ix ∧ 0 ≤ s.iy ∧ 0 ≤ s.iz) (st : StencilShape) :
    L.FromMinusOne st := by
  intro n _ c hc
  obtain ⟨-, t, ht, hct⟩ := needed_iff.mp hc
  have hlo := h t ht
  rw [mem_cells_iff] at hct
  omega

theorem pair_exchanges :
    ∃ pkg : ℤ → CommPkg, (∀ p, newVectorCommPkg (gridOn pair.allSubgrids p) 1
        (createComputePkgs (gridOn pair.allSubgrids p) .bPoint) = some (pkg p)) ∧
      ∀ (α : Type) (σ : State ℤ ℤ α), Reachable (exchangePlan pkg fun _ => .mpiType 8) σ →
        (∀ s ∈ pair.allSubgrids, σ.phase s.process = .finished → pair.Exchanged .bPoint 1 σ s) ∧
        ∃ σ', Relation.ReflTransGen (Step (exchangePlan pkg fun _ => .mpiType 8)) σ σ' ∧
          ∀ s ∈ pair.allSubgrids, σ'.phase s.process = .finished :=
  vectorUpdate_exchanges pair (by unfold OnePerProcess; decide) .bPoint (fun _ => fromMinusOne_of_nonneg (by decide) _) 1
    (by decide) (fun _ => .mpiType 8) fun _ => (by decide : (0 : ℤ) < 8)

/-- Two subgrids of two cells below the index zero. -/
def belowZero : Layout where
  allSubgrids := [newSubgrid (-4) 0 0 2 1 1 0 0 0 0, newSubgrid (-2) 0 0 2 1 1 0 0 0 1]
  sameRes := by decide
  disjoint := by decide

/-- The plan of the two processes when the black points are exchanged: the cell `(-2, 0, 0)` goes from the
ghost layer of process 0 to process 1, which owns it. -/
theorem belowZero_plan : let P := exchangePlan (belowZero.vectorPkg .rPoint 1) fun _ => .vector
    P.dests 0 = [1] ∧ P.srcs 1 = [0] ∧ P.dests 1 = [] ∧ P.out 0 1 = [19] ∧ P.into 1 0 = [17] := by decide +kernel

/-- An own cell is overwritten. -/
theorem belowZero_not_exchanged :
    ¬ ∀ (L : Layout), L.OnePerProcess → (∀ s ∈ L.allSubgrids, s.NonEmpty) → ∀ (mode : UpdateMode) (g : ℤ), Reach mode.shape g →
      ∀ (method : ℤ → PackMethod), (∀ p, (method p).Sized) → ∀ pkg : ℤ → CommPkg,
        (∀ p, newVectorCommPkg (gridOn L.allSubgrids p) g (createComputePkgs (gridOn L.allSubgrids p) mode) = some (pkg p)) →
      ∀ (α : Type) (σ : State ℤ ℤ α), Reachable (exchangePlan pkg method) σ →
        ∀ s ∈ L.allSubgrids, σ.phase s.process = .finished → L.Exchanged mode g σ s := by
  intro h
  have hone : belowZero.OnePerProcess := by
    unfold OnePerProcess
    decide
  obtain ⟨hdests, hsrcs, hnone, hout, hinto⟩ := belowZero_plan
  set P := exchangePlan (belowZero.vectorPkg .rPoint 1) fun _ => .vector with hP
  have hexchanged := h belowZero hone (by decide) .rPoint 1 (by decide) (fun _ => .vector) (fun _ => trivial)
    (belowZero.vectorPkg .rPoint 1) (newVectorCommPkg_eq hone .rPoint 1) ℤ
  rw [← hP] at hexchanged
  -- process 0 has zeros and process 1 ones
  obtain ⟨σ, hσ, hfin, hstarted, hdata⟩ := exists_reachable_received (P := P) (p := 0) (q := 1) (by decide)
    (hdests ▸ List.mem_singleton_self 1) hsrcs hnone fun p _ => p
  have howned := (hexchanged σ hσ (newSubgrid (-2) 0 0 2 1 1 0 0 0 1) (by decide) hfin).owned (-2, 0, 0) (by decide)
  replace howned : σ.data 1 17 = σ.started 1 17 := howned
  rw [hdata, hstarted, hout, hinto] at howned
  exact absurd howned (by decide)

end Layout

end ParFlow
