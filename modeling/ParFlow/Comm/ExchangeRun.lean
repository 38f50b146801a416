import ParFlow.Comm.Exchange

/-! The exchange of a vector as its processes see it in a run, before and after they have waited. -/

namespace ParFlow

open Cover Subregion GhostExchange

namespace Layout

variable {α : Type} {L : Layout} {g : ℤ} {method : ℤ → PackMethod} {x : ℤ → Subvector α} {σ : State ℤ ℤ α} {s : Subgrid}
  {c : Cell}

/-- A state of an exchange to which the processes that have started have come with their parts of `x`. -/
def Exchanging (L : Layout) (g : ℤ) (method : ℤ → PackMethod) (x : ℤ → Subvector α) (σ : State ℤ ℤ α) : Prop :=
  Reachable (exchangePlan (L.vectorPkg .all g) method) σ ∧
    ∀ s ∈ L.allSubgrids, σ.phase s.process ≠ .idle → σ.started s.process = (x s.process).data

/-- The subvector of a process in a state. -/
def seen (x : ℤ → Subvector α) (σ : State ℤ ℤ α) (p : ℤ) : Subvector α := { x p with data := σ.data p }

theorem exists_mem_sentCells (hone : L.OnePerProcess) (hs : s ∈ L.allSubgrids) (hc : L.Needed updateAllShape s c) :
    ∃ t ∈ L.allSubgrids, c ∈ t.cells ∧ c ∈ L.sentCells .all t.process s.process := by
  have hown : s ∈ L.own s.process := mem_own.mpr ⟨hs, rfl⟩
  obtain ⟨hex, howner⟩ := received_exact updateAllShape hown
  obtain ⟨u, hu, hcu⟩ := (hex.mem_iff c).mpr hc
  obtain ⟨t, ht, htu, hct⟩ := howner u hu c hcu
  refine ⟨t, ht, hct, ?_⟩
  rw [sentCells_eq hone, Region.forProcess, modePkg_recvRegion, own_eq_of_onePerProcess hone hown, List.map_singleton,
    List.flatten_singleton]
  have hu' : u ∈ L.recvArray updateAllShape s.process s := hu
  exact List.mem_flatMap.mpr ⟨u, List.mem_filter.mpr ⟨hu', decide_eq_true htu.symm⟩,
    (mem_points_iff (recvArray_spec hown hu').2).mpr hcu⟩

section Run

variable (hone : L.OnePerProcess) (hg : 1 ≤ g) (hm : ∀ p, (method p).Sized)

include hone hg hm

theorem plan_keyed : (exchangePlan (L.vectorPkg .all g) method).Keyed (L.sentCells .all)
    (fun p => cellIndex (L.vectorSpace g p))
    (fun p => {c | ∃ s ∈ L.own p, c ∈ s.cells}) (fun p => {c | c ∈ (L.vectorSpace g p).cells}) := by
  refine exchangePlan_keyed hone (fun h => absurd h (by decide)) (fun v hv => ?_) hm
  have hreach : Reach updateAllShape 1 := by decide
  obtain ⟨hx, hy, hz⟩ := hreach v hv
  exact ⟨hx.trans hg, hy.trans hg, hz.trans hg⟩

variable (hx : ∀ s ∈ L.allSubgrids, (x s.process).dataSpace = ghostSpace s g) (h : L.Exchanging g method x σ)
    (hs : s ∈ L.allSubgrids)

include hx h hs

/-- While the exchange is going on, the cells that are not received keep their values. -/
theorem Exchanging.inFlight (hphase : σ.phase s.process ≠ .idle) : L.InFlight updateAllShape x s (seen x σ s.process) := by
  have hkeyed := plan_keyed hone hg hm
  have hown : L.own s.process = [s] := own_eq_of_onePerProcess hone (mem_own.mpr ⟨hs, rfl⟩)
  refine ⟨rfl, fun c hc hno => ?_⟩
  have hspace : (seen x σ s.process).dataSpace = L.vectorSpace g s.process := (hx s hs).trans (vectorSpace_eq hown).symm
  have hframe := (h.1.inv hkeyed.wellFormed).frame s.process (cellIndex (L.vectorSpace g s.process) c) hphase (by
    intro p hp _ hin
    rw [hkeyed.into_eq p s.process ((hkeyed.mem_srcs p s.process).mp hp)] at hin
    obtain ⟨d, hd, hdc⟩ := List.mem_map.mp hin
    obtain ⟨n, t, hn, -, hneed, -⟩ := mem_sentCells hone (fun h => absurd h (by decide)) hd
    rw [hown, List.singleton_inj] at hn
    rw [hkeyed.place_injOn s.process (hkeyed.foreign p s.process d hd).1 (hspace ▸ hc) hdc, ← hn] at hneed
    exact hno hneed)
  show σ.data s.process (cellIndex _ c) = (x s.process).data (cellIndex _ c)
  rw [← h.2 s hs hphase]
  rw [← hspace] at hframe
  exact hframe

/-- When the process has finished, it has the values of the owners. -/
theorem Exchanging.delivered (hfin : σ.phase s.process = .finished)  :
    L.Delivered updateAllShape x s (seen x σ s.process) := by
  have hkeyed := plan_keyed hone hg hm
  have hown : L.own s.process = [s] := own_eq_of_onePerProcess hone (mem_own.mpr ⟨hs, rfl⟩)
  have hinflight := h.inFlight hone hg hm hx hs (by rw [hfin]; decide)
  refine ⟨hinflight, fun c hc hneed t ht hct => ?_⟩
  obtain ⟨t', ht', hct', hsent⟩ := exists_mem_sentCells hone hs hneed
  obtain rfl := eq_of_mem ht ht' hct hct'
  have htown : L.own t.process = [t] := own_eq_of_onePerProcess hone (mem_own.mpr ⟨ht, rfl⟩)
  -- the message has left, so that its sender had started
  have hinv := h.1.inv hkeyed.wellFormed
  have hdone := hinv.received s.process hfin t.process ((hkeyed.mem_srcs _ _).mpr (List.ne_nil_of_mem hsent))
  have hstarted := h.2 t ht (hinv.departed t.process s.process (by rw [hdone]; simp))
  have hvalue := (h.1.finished_keys hkeyed hfin).1 t.process c hsent
  rw [vectorSpace_eq hown, vectorSpace_eq htown, hstarted] at hvalue
  show σ.data s.process (cellIndex (x s.process).dataSpace c) = (x t.process).data (cellIndex (x t.process).dataSpace c)
  rw [hx s hs, hx t ht, hvalue]

omit hx h hs in
/-- All processes can come to the end of an exchange of any vector. -/
theorem exists_exchanged (x : ℤ → Subvector α) :
    ∃ σ, L.Exchanging g method x σ ∧ ∀ s ∈ L.allSubgrids, σ.phase s.process = .finished := by
  have hkeyed := plan_keyed hone hg hm
  have hranks : ∀ p q, L.sentCells .all p q ≠ [] →
      p ∈ (L.allSubgrids.map fun s => s.process).toFinset ∧ q ∈ (L.allSubgrids.map fun s => s.process).toFinset := by
    intro p q hne
    obtain ⟨c, hc⟩ := List.exists_mem_of_ne_nil _ hne
    obtain ⟨n, t, hn, ht, -, -⟩ := mem_sentCells hone (fun h => absurd h (by decide)) hc
    obtain ⟨hnL, rfl⟩ := mem_own.mp (hn ▸ List.mem_singleton_self n)
    obtain ⟨htL, rfl⟩ := mem_own.mp (ht ▸ List.mem_singleton_self t)
    exact ⟨List.mem_toFinset.mpr (List.mem_map_of_mem htL), List.mem_toFinset.mpr (List.mem_map_of_mem hnL)⟩
  obtain ⟨σ, hrun, -, hstarted, hphase⟩ := exists_started (exchangePlan (L.vectorPkg .all g) method) (fun p => (x p).data)
    (L.allSubgrids.map fun s => s.process)
  obtain ⟨σ', hrun', hall⟩ := Reachable.exists_finished (R := (L.allSubgrids.map fun s => s.process).toFinset)
    hkeyed.wellFormed
    (fun p _ q hq => (hranks p q ((hkeyed.mem_dests p q).mp hq)).2)
    (fun q _ p hp => (hranks p q ((hkeyed.mem_srcs p q).mp hp)).1) ⟨_, hrun⟩
  refine ⟨σ', ⟨⟨_, hrun.trans hrun'⟩, fun s hs _ => ?_⟩, fun s hs => hall _ (List.mem_toFinset.mpr (List.mem_map_of_mem hs))⟩
  rw [(run_started_eq hrun' (hphase _ (List.mem_map_of_mem hs))).2, hstarted]

end Run

end Layout

end ParFlow
