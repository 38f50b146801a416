import ParFlow.Comm.ComputeCells

/-! What an exchange does to the subvector of a subgrid, in terms of the values of all subvectors
before it. -/

namespace ParFlow

open Subregion

theorem mem_ghostSpace {s : Subgrid} {g : ℤ} {c : Cell} : c ∈ (ghostSpace s g).cells ↔
    (s.ix - g ≤ c.1 ∧ c.1 < s.ix + s.nx + g) ∧ (s.iy - g ≤ c.2.1 ∧ c.2.1 < s.iy + s.ny + g) ∧
      s.iz - g ≤ c.2.2 ∧ c.2.2 < s.iz + s.nz + g := by
  rw [mem_cells_iff]
  simp only [ghostSpace, newSubgrid]
  omega

theorem mem_ghostSpace_of_mem {s : Subgrid} {g : ℤ} (hg : 0 ≤ g) {c : Cell} (hc : c ∈ s.cells) : c ∈ (ghostSpace s g).cells := by
  rw [mem_ghostSpace]
  rw [mem_cells_iff] at hc
  omega

/-- The stencil reaches at most `g` cells along each axis. -/
def Reach (st : StencilShape) (g : ℤ) : Prop := ∀ v ∈ st, |v.1| ≤ g ∧ |v.2.1| ≤ g ∧ |v.2.2| ≤ g

instance (st : StencilShape) (g : ℤ) : Decidable (Reach st g) := inferInstanceAs (Decidable (∀ v ∈ st, _))

theorem mem_ghostSpace_add {st : StencilShape} {s : Subgrid} {g : ℤ} (hg : Reach st g) {c v : Cell} (hc : c ∈ s.cells)
    (hv : v ∈ st) : c + v ∈ (ghostSpace s g).cells := by
  obtain ⟨hx, hy, hz⟩ := hg v hv
  rw [abs_le] at hx hy hz
  rw [mem_ghostSpace]
  rw [mem_cells_iff] at hc
  simp only [Prod.fst_add, Prod.snd_add]
  omega

theorem mem_ghostSpace_of_halo {st : StencilShape} {s : Subgrid} {g : ℤ} (hg : Reach st g) {c : Cell} (hc : Halo st s c) :
    c ∈ (ghostSpace s g).cells := by
  obtain ⟨-, v, hv, hcv⟩ := hc
  have h := mem_ghostSpace_add hg hcv hv
  rwa [sub_add_cancel] at h

namespace Layout

variable {α : Type} {L : Layout} {st : StencilShape} {s t : Subgrid} {x : ℤ → Subvector α} {x' : Subvector α} {c : Cell}

def OnePerProcess (L : Layout) : Prop := (L.allSubgrids.map fun s => s.process).Nodup

/-- The exchange may have written to the cells that the subgrid receives, and to no others. -/
structure InFlight (L : Layout) (st : StencilShape) (x : ℤ → Subvector α) (s : Subgrid) (x' : Subvector α) : Prop where
  dataSpace : x'.dataSpace = (x s.process).dataSpace
  others : ∀ c ∈ x'.dataSpace.cells, ¬ L.Needed st s c → x'.get c = (x s.process).get c

/-- The cells that the subgrid receives hold the values of their owners. -/
structure Delivered (L : Layout) (st : StencilShape) (x : ℤ → Subvector α) (s : Subgrid) (x' : Subvector α) : Prop
    extends InFlight L st x s x' where
  received : ∀ c ∈ x'.dataSpace.cells, L.Needed st s c → ∀ t ∈ L.allSubgrids, c ∈ t.cells → x'.get c = (x t.process).get c

/-- The value of a cell as the subgrid `s` should see it: that of its owner, or its own outside of all
subgrids. -/
def valueFor (L : Layout) (x : ℤ → Subvector α) (s : Subgrid) (c : Cell) : α :=
  match L.allSubgrids.find? fun t => c ∈ t.cells with
  | some t => (x t.process).get c
  | none => (x s.process).get c

theorem valueFor_of_mem (ht : t ∈ L.allSubgrids) (hc : c ∈ t.cells) : L.valueFor x s c = (x t.process).get c := by
  obtain ⟨u, hu⟩ := Option.isSome_iff_exists.mp (List.find?_isSome.mpr ⟨t, ht, by simpa using hc⟩ :
    (L.allSubgrids.find? fun t => c ∈ t.cells).isSome)
  have hmem := List.mem_of_find?_eq_some hu
  have hcu : c ∈ u.cells := by simpa using List.find?_some hu
  unfold valueFor
  rw [hu, eq_of_mem ht hmem hc hcu]

theorem valueFor_of_notMem (h : ∀ t ∈ L.allSubgrids, c ∉ t.cells) : L.valueFor x s c = (x s.process).get c := by
  have hnone : (L.allSubgrids.find? fun t => c ∈ t.cells) = none := by
    rw [List.find?_eq_none]
    simpa using h
  unfold valueFor
  rw [hnone]

/-- Away from the cells that are received, the values are right at any time. -/
theorem InFlight.get_eq (h : L.InFlight st x s x') (hs : s ∈ L.allSubgrids) (hc : c ∈ x'.dataSpace.cells)
    (hn : ¬ L.Needed st s c) (hreach : c ∈ s.cells ∨ ∃ v ∈ st, c - v ∈ s.cells) : x'.get c = L.valueFor x s c := by
  rw [h.others c hc hn]
  by_cases hcs : c ∈ s.cells
  · rw [valueFor_of_mem hs hcs]
  · rw [valueFor_of_notMem]
    intro t ht hct
    apply hn
    refine needed_iff.mpr ⟨⟨hcs, ?_⟩, t, ht, hct⟩
    rcases hreach with h | h
    · exact absurd h hcs
    · exact h

theorem Delivered.get_eq (h : L.Delivered st x s x') (hs : s ∈ L.allSubgrids) (hc : c ∈ x'.dataSpace.cells)
    (hreach : c ∈ s.cells ∨ ∃ v ∈ st, c - v ∈ s.cells) : x'.get c = L.valueFor x s c := by
  by_cases hn : L.Needed st s c
  · obtain ⟨-, t, ht, hct⟩ := needed_iff.mp hn
    rw [h.received c hc hn t ht hct, valueFor_of_mem ht hct]
  · exact h.toInFlight.get_eq hs hc hn hreach

end Layout

end ParFlow
