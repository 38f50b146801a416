import ParFlow.Pfb.DistFile
import ParFlow.Tools.ToolDefs

/-! When the subgrids of `ComputeDomain` reach as high and as low as the columns around them. -/

namespace ParFlow.Domain

open IntLoop
open ParFlow.Pfb (Databox)
open ParFlow.Topo (coeffAt)

variable {top bottom : Databox ℤ}

/-! ## Scans -/

def Active (top : Databox ℤ) (c : ℤ × ℤ) : Prop := 0 ≤ coeffAt top c.1 c.2

instance (top : Databox ℤ) (c : ℤ × ℤ) : Decidable (Active top c) := inferInstanceAs (Decidable (_ ≤ _))

theorem domainMax_eq (a b : ℤ) : domainMax a b = max a b := by
  unfold domainMax
  split_ifs with h
  · exact (max_eq_left h.le).symm
  · exact (max_eq_right (not_lt.mp h)).symm

theorem domainMin_eq (a b : ℤ) : domainMin a b = min a b := by
  unfold domainMin
  split_ifs with h
  · exact (min_eq_left h.le).symm
  · exact (min_eq_right (not_lt.mp h)).symm

theorem mem_columnLoop {ix iy nx ny : ℤ} {c : ℤ × ℤ} :
    c ∈ columnLoop ix iy nx ny ↔ (ix ≤ c.1 ∧ c.1 < ix + nx) ∧ iy ≤ c.2 ∧ c.2 < iy + ny := by
  rw [columnLoop, mem_rows, mem_upto, mem_upto]

theorem le_scan_top {x : ℤ} {l : List (ℤ × ℤ)} {e : Extent} : x ≤ (l.foldl (scanColumn top bottom) e).patchTop ↔
    x ≤ e.patchTop ∨ ∃ c ∈ l, Active top c ∧ x ≤ coeffAt top c.1 c.2 := by
  induction l generalizing e with
  | nil => simp
  | cons c l ih =>
    have hstep : x ≤ (scanColumn top bottom e c).patchTop ↔
        x ≤ e.patchTop ∨ Active top c ∧ x ≤ coeffAt top c.1 c.2 := by
      simp only [scanColumn, domainMax_eq]
      by_cases hc : coeffAt top c.1 c.2 ≥ 0
      · rw [if_pos hc, le_max_iff]
        exact or_congr_right (and_iff_right hc).symm
      · rw [if_neg hc]
        exact (or_iff_left fun h => hc h.1).symm
    rw [List.foldl_cons, ih, hstep, or_assoc]
    simp only [List.mem_cons, or_and_right, exists_or, exists_eq_left]

theorem scan_bottom_le {x : ℤ} {l : List (ℤ × ℤ)} {e : Extent} : (l.foldl (scanColumn top bottom) e).patchBottom ≤ x ↔
    e.patchBottom ≤ x ∨ ∃ c ∈ l, Active bottom c ∧ coeffAt bottom c.1 c.2 ≤ x := by
  induction l generalizing e with
  | nil => simp
  | cons c l ih =>
    have hstep : (scanColumn top bottom e c).patchBottom ≤ x ↔
        e.patchBottom ≤ x ∨ Active bottom c ∧ coeffAt bottom c.1 c.2 ≤ x := by
      simp only [scanColumn, domainMin_eq]
      by_cases hc : coeffAt bottom c.1 c.2 ≥ 0
      · rw [if_pos hc, min_le_iff]
        exact or_congr_right (and_iff_right hc).symm
      · rw [if_neg hc]
        exact (or_iff_left fun h => hc h.1).symm
    rw [List.foldl_cons, ih, hstep, or_assoc]
    simp only [List.mem_cons, or_and_right, exists_or, exists_eq_left]

/-! ## One subgrid -/

/-- The columns of a subgrid. -/
def own (s : Subgrid) : List (ℤ × ℤ) := columnLoop s.ix s.iy s.nx s.ny

/-- The columns of a subgrid and those around them, as far as they are in the grid. -/
def InRing (user s : Subgrid) (c : ℤ × ℤ) : Prop :=
  ((s.ix - 1 ≤ c.1 ∧ c.1 < s.ix + s.nx + 1) ∧ user.ix ≤ c.1 ∧ c.1 < user.ix + user.nx) ∧
    (s.iy - 1 ≤ c.2 ∧ c.2 < s.iy + s.ny + 1) ∧ user.iy ≤ c.2 ∧ c.2 < user.iy + user.ny

instance (user s : Subgrid) (c : ℤ × ℤ) : Decidable (InRing user s c) := inferInstanceAs (Decidable (_ ∧ _))

/-- What is asked of a subgrid `s` and what becomes of it. -/
structure KeepsNeighbours (user : Subgrid) (top bottom : Databox ℤ) (s s' : Subgrid) : Prop where
  nonEmpty : s'.NonEmpty
  low : s.iz ≤ s'.iz
  high : s'.iz + s'.nz ≤ s.iz + s.nz
  levels : ∀ c, InRing user s c → Active top c → ∀ k, coeffAt bottom c.1 c.2 ≤ k → k ≤ coeffAt top c.1 c.2 →
    s'.iz ≤ k ∧ k < s'.iz + s'.nz

/-- In every column of the grid the bottom is not above the top, or both are -1. -/
structure TopBottom (user : Subgrid) (top bottom : Databox ℤ) : Prop where
  nx : top.nx = user.nx
  ny : top.ny = user.ny
  levels : ∀ c : ℤ × ℤ, (0 ≤ c.1 ∧ c.1 < user.nx) ∧ 0 ≤ c.2 ∧ c.2 < user.ny →
    (0 ≤ coeffAt bottom c.1 c.2 ∧ coeffAt bottom c.1 c.2 ≤ coeffAt top c.1 c.2 ∧ coeffAt top c.1 c.2 < user.nz) ∨
      coeffAt top c.1 c.2 = -1 ∧ coeffAt bottom c.1 c.2 = -1

/-- A subgrid over the full height of a grid that starts at the origin. -/
structure Block (user s : Subgrid) : Prop where
  origin : user.ix = 0 ∧ user.iy = 0
  height : s.iz = 0 ∧ s.nz = user.nz ∧ 0 < user.nz
  xs : 0 ≤ s.ix ∧ s.ix + s.nx ≤ user.nx
  ys : 0 ≤ s.iy ∧ s.iy + s.ny ≤ user.ny

/-- A column of the ring that the second scan leaves out. -/
def Skipped (user : Subgrid) (top : Databox ℤ) (s : Subgrid) (c : ℤ × ℤ) : Prop :=
  InRing user s c ∧ c ∉ own s ∧ c ∉ rescanned top s

/-- Some scan finds an active column, or the grid is low; and the active columns that are left out are not higher or lower
than what the scans find: two levels of padding above and below the own columns, and none with the others. -/
structure Reached (user : Subgrid) (top bottom : Databox ℤ) (s : Subgrid) : Prop where
  column : (∃ c, (c ∈ own s ∨ c ∈ rescanned top s) ∧ Active top c) ∨ user.nz ≤ 4
  above : ∀ c, Skipped user top s c → Active top c → coeffAt top c.1 c.2 ≤ 2 ∨
    (∃ d ∈ own s, Active top d ∧ coeffAt top c.1 c.2 ≤ coeffAt top d.1 d.2 + 2) ∨
      ∃ d ∈ rescanned top s, Active top d ∧ coeffAt top c.1 c.2 ≤ coeffAt top d.1 d.2
  below : ∀ c, Skipped user top s c → Active top c → user.nz - 2 ≤ coeffAt bottom c.1 c.2 ∨
    (∃ d ∈ own s, Active top d ∧ coeffAt bottom d.1 d.2 - 2 ≤ coeffAt bottom c.1 c.2) ∨
      ∃ d ∈ rescanned top s, Active top d ∧ coeffAt bottom d.1 d.2 ≤ coeffAt bottom c.1 c.2

section

variable {user s : Subgrid} {c : ℤ × ℤ} {x : ℤ}

theorem mem_own : c ∈ own s ↔ (s.ix ≤ c.1 ∧ c.1 < s.ix + s.nx) ∧ s.iy ≤ c.2 ∧ c.2 < s.iy + s.ny := mem_columnLoop

theorem mem_rescanned : c ∈ rescanned top s ↔ (max 0 (s.ix - 1) ≤ c.1 ∧ c.1 < min top.nx (s.nx + 2)) ∧
    max 0 (s.iy - 1) ≤ c.2 ∧ c.2 < min top.ny (s.ny + 2) := by
  unfold rescanned
  rw [mem_columnLoop]
  simp only [domainMax_eq, domainMin_eq]
  omega

theorem Block.inGrid (hb : Block user s) (htb : TopBottom user top bottom) (hc : c ∈ own s ∨ c ∈ rescanned top s) :
    (0 ≤ c.1 ∧ c.1 < user.nx) ∧ 0 ≤ c.2 ∧ c.2 < user.ny := by
  obtain ⟨hx, hx'⟩ := hb.xs
  obtain ⟨hy, hy'⟩ := hb.ys
  have hnx := htb.nx
  have hny := htb.ny
  rw [mem_own, mem_rescanned] at hc
  omega

theorem InRing.inGrid (hb : Block user s) (hc : InRing user s c) : (0 ≤ c.1 ∧ c.1 < user.nx) ∧ 0 ≤ c.2 ∧ c.2 < user.ny := by
  obtain ⟨hx, hy⟩ := hb.origin
  obtain ⟨⟨-, hc1⟩, -, hc2⟩ := hc
  omega

theorem TopBottom.active_iff (htb : TopBottom user top bottom) (hc : (0 ≤ c.1 ∧ c.1 < user.nx) ∧ 0 ≤ c.2 ∧ c.2 < user.ny) :
    Active bottom c ↔ Active top c := by
  have := htb.levels c hc
  unfold Active
  omega

/-- The highest level of the new subgrid. -/
theorem le_domain_top : x ≤ (domainSubgrid top bottom s).iz + (domainSubgrid top bottom s).nz - 1 ↔
    (x ≤ s.iz + 2 ∨ ∃ c ∈ own s, Active top c ∧ x ≤ coeffAt top c.1 c.2 + 2) ∧ x ≤ s.iz + s.nz - 1 ∨
      ∃ c ∈ rescanned top s, Active top c ∧ x ≤ coeffAt top c.1 c.2 := by
  have hshift : ∀ e : Extent, e.patchBottom + (e.patchTop - e.patchBottom + 1) - 1 = e.patchTop := fun e => by ring
  unfold domainSubgrid
  simp only [hshift, le_scan_top, domainMin_eq, le_min_iff]
  rw [← sub_le_iff_le_add, le_scan_top]
  simp only [sub_le_iff_le_add, own]

theorem domain_bottom_le : (domainSubgrid top bottom s).iz ≤ x ↔
    (s.iz + s.nz - 2 ≤ x ∨ ∃ c ∈ own s, Active bottom c ∧ coeffAt bottom c.1 c.2 - 2 ≤ x) ∧ s.iz ≤ x ∨
      ∃ c ∈ rescanned top s, Active bottom c ∧ coeffAt bottom c.1 c.2 ≤ x := by
  unfold domainSubgrid
  simp only [scan_bottom_le, domainMax_eq, max_le_iff]
  rw [sub_le_iff_le_add, scan_bottom_le]
  simp only [sub_le_iff_le_add, own]

/-- The columns that a scan passes are within the new subgrid. -/
theorem le_top_of_scanned (hb : Block user s) (htb : TopBottom user top bottom) (hc : c ∈ own s ∨ c ∈ rescanned top s)
    (hactive : Active top c) :
    coeffAt top c.1 c.2 ≤ (domainSubgrid top bottom s).iz + (domainSubgrid top bottom s).nz - 1 := by
  obtain ⟨hz, hnz, -⟩ := hb.height
  refine le_domain_top.mpr (hc.imp (fun hc => ⟨Or.inr ⟨c, hc, hactive, by omega⟩, ?_⟩) fun hc => ⟨c, hc, hactive, le_rfl⟩)
  have := htb.levels c (hb.inGrid htb (Or.inl hc))
  unfold Active at hactive
  omega

theorem bottom_le_of_scanned (hb : Block user s) (htb : TopBottom user top bottom) (hc : c ∈ own s ∨ c ∈ rescanned top s)
    (hactive : Active top c) : (domainSubgrid top bottom s).iz ≤ coeffAt bottom c.1 c.2 := by
  have hactive' := (htb.active_iff (hb.inGrid htb hc)).mpr hactive
  refine domain_bottom_le.mpr (hc.imp (fun hc => ⟨Or.inr ⟨c, hc, hactive', by omega⟩, ?_⟩) fun hc => ⟨c, hc, hactive', le_rfl⟩)
  rw [hb.height.1]
  exact hactive'

theorem keepsNeighbours_iff (hb : Block user s) (hs : 0 < s.nx ∧ 0 < s.ny) (htb : TopBottom user top bottom) :
    KeepsNeighbours user top bottom s (domainSubgrid top bottom s) ↔ Reached user top bottom s := by
  obtain ⟨hz, hnz, hpos⟩ := hb.height
  have hlevels : ∀ c, InRing user s c → Active top c →
      0 ≤ coeffAt bottom c.1 c.2 ∧ coeffAt bottom c.1 c.2 ≤ coeffAt top c.1 c.2 ∧ coeffAt top c.1 c.2 < user.nz := by
    intro c hc hactive
    have := htb.levels c (hc.inGrid hb)
    unfold Active at hactive
    omega
  -- the activity of the bottoms is that of the tops
  have hbottom : ∀ {x}, (domainSubgrid top bottom s).iz ≤ x ↔
      (s.iz + s.nz - 2 ≤ x ∨ ∃ c ∈ own s, Active top c ∧ coeffAt bottom c.1 c.2 - 2 ≤ x) ∧ s.iz ≤ x ∨
        ∃ c ∈ rescanned top s, Active top c ∧ coeffAt bottom c.1 c.2 ≤ x := by
    intro x
    rw [domain_bottom_le]
    refine or_congr (and_congr_left' (or_congr_right (exists_congr fun c => and_congr_right fun hc => ?_)))
      (exists_congr fun c => and_congr_right fun hc => ?_)
    · rw [htb.active_iff (hb.inGrid htb (Or.inl hc))]
    · rw [htb.active_iff (hb.inGrid htb (Or.inr hc))]
  constructor
  · intro h
    have hinside : ∀ c, Skipped user top s c → Active top c →
        (domainSubgrid top bottom s).iz ≤ coeffAt bottom c.1 c.2 ∧
          coeffAt top c.1 c.2 ≤ (domainSubgrid top bottom s).iz + (domainSubgrid top bottom s).nz - 1 := by
      intro c hc hactive
      have hle := (hlevels c hc.1 hactive).2.1
      have hlow := h.levels c hc.1 hactive _ le_rfl hle
      have hhigh := h.levels c hc.1 hactive _ hle le_rfl
      omega
    refine ⟨?_, fun c hc hactive => ?_, fun c hc hactive => ?_⟩
    · by_contra hnot
      obtain ⟨hnone, hnz'⟩ := not_or.mp hnot
      have hpos' := h.nonEmpty.2.2
      rcases le_domain_top.mp (show (domainSubgrid top bottom s).iz ≤
          (domainSubgrid top bottom s).iz + (domainSubgrid top bottom s).nz - 1 by omega) with ⟨htop, -⟩ | ⟨c, hc, hactive, -⟩
      · rcases htop with htop | ⟨c, hc, hactive, -⟩
        · rcases hbottom.mp le_rfl with ⟨hlow | ⟨c, hc, hactive, -⟩, -⟩ | ⟨c, hc, hactive, -⟩
          · omega
          · exact hnone ⟨c, Or.inl hc, hactive⟩
          · exact hnone ⟨c, Or.inr hc, hactive⟩
        · exact hnone ⟨c, Or.inl hc, hactive⟩
      · exact hnone ⟨c, Or.inr hc, hactive⟩
    · rcases le_domain_top.mp (hinside c hc hactive).2 with ⟨htop, -⟩ | hscan
      · exact htop.imp (fun h => by omega) Or.inl
      · exact Or.inr (Or.inr hscan)
    · rcases hbottom.mp (hinside c hc hactive).1 with ⟨hlow, -⟩ | hscan
      · exact hlow.imp (fun h => by omega) Or.inl
      · exact Or.inr (Or.inr hscan)
  · intro h
    have hlow : s.iz ≤ (domainSubgrid top bottom s).iz := by
      rcases hbottom.mp le_rfl with ⟨-, hlow⟩ | ⟨c, hc, hactive, hle⟩
      · exact hlow
      · have := (htb.active_iff (hb.inGrid htb (Or.inr hc))).mpr hactive
        unfold Active at this
        omega
    have hhigh : (domainSubgrid top bottom s).iz + (domainSubgrid top bottom s).nz ≤ s.iz + s.nz := by
      rcases le_domain_top.mp (le_refl ((domainSubgrid top bottom s).iz + (domainSubgrid top bottom s).nz - 1)) with
        ⟨-, hhigh⟩ | ⟨c, hc, hactive, hle⟩
      · omega
      · have := htb.levels c (hb.inGrid htb (Or.inr hc))
        omega
    have hinside : ∀ c, InRing user s c → Active top c → (domainSubgrid top bottom s).iz ≤ coeffAt bottom c.1 c.2 ∧
        coeffAt top c.1 c.2 ≤ (domainSubgrid top bottom s).iz + (domainSubgrid top bottom s).nz - 1 := by
      intro c hc hactive
      by_cases hscan : c ∈ own s ∨ c ∈ rescanned top s
      · exact ⟨bottom_le_of_scanned hb htb hscan hactive, le_top_of_scanned hb htb hscan hactive⟩
      have hskipped : Skipped user top s c := ⟨hc, not_or.mp hscan⟩
      obtain ⟨h0, -, hnz'⟩ := hlevels c hc hactive
      constructor
      · rcases h.below c hskipped hactive with hle | hle | hle
        · exact hbottom.mpr (Or.inl ⟨Or.inl (by omega), by omega⟩)
        · exact hbottom.mpr (Or.inl ⟨Or.inr hle, by omega⟩)
        · exact hbottom.mpr (Or.inr hle)
      · rcases h.above c hskipped hactive with hle | hle | hle
        · exact le_domain_top.mpr (Or.inl ⟨Or.inl (by omega), by omega⟩)
        · exact le_domain_top.mpr (Or.inl ⟨Or.inr hle, by omega⟩)
        · exact le_domain_top.mpr (Or.inr hle)
    refine ⟨⟨hs.1, hs.2, ?_⟩, hlow, hhigh, fun c hc hactive k hk hk' => ?_⟩
    · rcases h.column with ⟨c, hc, hactive⟩ | hfour
      · have htop := le_top_of_scanned hb htb hc hactive
        have hbot := bottom_le_of_scanned hb htb hc hactive
        have := htb.levels c (hb.inGrid htb hc)
        omega
      · have htop : min 2 (s.nz - 1) ≤ (domainSubgrid top bottom s).iz + (domainSubgrid top bottom s).nz - 1 :=
          le_domain_top.mpr (Or.inl ⟨Or.inl (by omega), by omega⟩)
        have hbot : (domainSubgrid top bottom s).iz ≤ min 2 (s.nz - 1) :=
          hbottom.mpr (Or.inl ⟨Or.inl (by omega), by omega⟩)
        omega
    · obtain ⟨h1, h2⟩ := hinside c hc hactive
      omega

end

/-! ## All subgrids -/

/-- Every subgrid is changed once, in the round of its process. -/
theorem foldl_processes {f : Subgrid → Subgrid} (hf : ∀ s, (f s).process = s.process) {l : List ℤ} (hl : l.Nodup)
    (all : SubgridArray) : l.foldl (fun all p => all.map fun s => if s.process = p then f s else s) all =
      all.map fun s => if s.process ∈ l then f s else s := by
  induction l generalizing all with
  | nil => simp
  | cons p l ih =>
    obtain ⟨hp, hl⟩ := List.nodup_cons.mp hl
    rw [List.foldl_cons, ih hl, List.map_map]
    refine List.map_congr_left fun s _ => ?_
    by_cases hs : s.process = p
    · simp [hs, hf, hp]
    · simp [hs]

theorem computeDomain_eq {all : SubgridArray} {P Q R : ℤ} (hall : ∀ s ∈ all, 0 ≤ s.process ∧ s.process < P * Q * R) :
    computeDomain top bottom all P Q R = all.map (domainSubgrid top bottom) := by
  unfold computeDomain
  rw [foldl_processes (f := domainSubgrid top bottom) (fun _ => rfl) (upto_nodup _ _)]
  exact List.map_congr_left fun s hs => if_pos (mem_upto.mpr (hall s hs))

section

variable {user : Subgrid} {P Q : ℤ} {c : ℤ × ℤ × ℤ}

theorem block_blockAt (horigin : user.ix = 0 ∧ user.iy = 0 ∧ user.iz = 0) (hfits : Fits user (P, Q, 1))
    (hc : InLayout (P, Q, 1) c) : Block user (blockAt user (P, Q, 1) c) := by
  obtain ⟨hx, hy, hz⟩ := horigin
  have hbounds : ∀ a : Axis, user.lo a ≤ (blockAt user (P, Q, 1) c).lo a ∧
      (blockAt user (P, Q, 1) c).lo a + (blockAt user (P, Q, 1) c).num a ≤ user.lo a + user.num a := by
    intro a
    have hfirst := BlockSplit.start_le (l := (user.num a).tmod (a.coord (P, Q, 1))) (hfits.quot_pos a).le (hc a).1
    have hlast := BlockSplit.start_le (l := (user.num a).tmod (a.coord (P, Q, 1))) (hfits.quot_pos a).le
      (show a.coord c + 1 ≤ a.coord (P, Q, 1) from (hc a).2)
    rw [BlockSplit.start_zero (hfits.rem_bounds a).1] at hfirst
    rw [BlockSplit.start_end (hfits.rem_bounds a).2.le, BlockSplit.start_succ, Int.tdiv_mul_add_tmod] at hlast
    rw [blockAt_lo, blockAt_num]
    omega
  have hc0 : c.2.2 = 0 := by
    have := hc .z
    simp only [Axis.coord] at this
    omega
  have hheight : (blockAt user (P, Q, 1) c).lo .z = user.iz ∧ (blockAt user (P, Q, 1) c).num .z = user.nz := by
    rw [blockAt_lo, blockAt_num]
    simp [Axis.coord, Subregion.num, Subregion.lo, hc0, BlockSplit.start, BlockSplit.size, Int.tmod_one]
  have hnz : 0 < user.nz := (hfits.pos .z).trans_le (hfits.le .z)
  have hbx := hbounds .x
  have hby := hbounds .y
  simp only [Subregion.lo, Subregion.num] at hbx hby hheight
  exact ⟨⟨hx, hy⟩, ⟨hheight.1.trans hz, hheight.2, hnz⟩, ⟨by omega, by omega⟩, by omega, by omega⟩

/-- With more processes along an axis than cells, the last one has none. -/
theorem num_last_block {a : Axis} (hpos : 0 < user.num a) {L : ℤ × ℤ × ℤ} (hL : user.num a < a.coord L)
    (hc : a.coord c = a.coord L - 1) : (blockAt user L c).num a = 0 := by
  have hquot : (user.num a).tdiv (a.coord L) = 0 := Int.tdiv_eq_zero_of_lt hpos.le hL
  have hrem : (user.num a).tmod (a.coord L) = user.num a := Int.tmod_eq_of_lt hpos.le hL
  rw [blockAt_num, hquot, hrem, hc, BlockSplit.size, if_neg (by omega)]

end

/-- The subgrids of the processes, and what becomes of them. -/
def DomainKept (user : Subgrid) (top bottom : Databox ℤ) (P Q : ℤ) : Prop :=
  ∃ all, Pfb.Tools.distributeUserGrid user (P * Q * 1) P Q 1 = some all ∧
    List.Forall₂ (KeepsNeighbours user top bottom) all (computeDomain top bottom all P Q 1)

theorem domainKept_iff_blocks {user : Subgrid} {P Q : ℤ} : DomainKept user top bottom P Q ↔
    ∀ c, InLayout (P, Q, 1) c → KeepsNeighbours user top bottom (blockAt user (P, Q, 1) c)
      (domainSubgrid top bottom (blockAt user (P, Q, 1) c)) := by
  have hdist : Pfb.Tools.distributeUserGrid user (P * Q * 1) P Q 1 = some (layoutBlocks user (P, Q, 1)) :=
    (Pfb.Tools.distributeUserGrid_eq user _ P Q 1).trans (distributeUserGrid_eq user (P, Q, 1))
  have hall : ∀ s ∈ layoutBlocks user (P, Q, 1), 0 ≤ s.process ∧ s.process < P * Q * 1 := by
    intro s hs
    obtain ⟨c, hc, rfl⟩ := mem_layoutBlocks.mp hs
    exact process_bounds hc
  unfold DomainKept
  rw [hdist]
  simp only [Option.some.injEq, exists_eq_left']
  rw [computeDomain_eq hall, List.forall₂_map_right_iff, List.forall₂_same]
  constructor
  · exact fun h c hc => h _ (mem_layoutBlocks.mpr ⟨c, hc, rfl⟩)
  · intro h s hs
    obtain ⟨c, hc, rfl⟩ := mem_layoutBlocks.mp hs
    exact h c hc

theorem domainKept_iff {user : Subgrid} (horigin : user.ix = 0 ∧ user.iy = 0 ∧ user.iz = 0) (huser : user.NonEmpty) {P Q : ℤ}
    (hP : 1 ≤ P) (hQ : 1 ≤ Q) (htb : TopBottom user top bottom) : DomainKept user top bottom P Q ↔
      (P ≤ user.nx ∧ Q ≤ user.ny) ∧ ∀ c, InLayout (P, Q, 1) c → Reached user top bottom (blockAt user (P, Q, 1) c) := by
  have hreached : P ≤ user.nx ∧ Q ≤ user.ny → ∀ c, InLayout (P, Q, 1) c → (KeepsNeighbours user top bottom
      (blockAt user (P, Q, 1) c) (domainSubgrid top bottom (blockAt user (P, Q, 1) c)) ↔
      Reached user top bottom (blockAt user (P, Q, 1) c)) := by
    intro hle c hc
    have hfits : Fits user (P, Q, 1) :=
      ⟨Axis.forall.mpr ⟨hP, hQ, one_pos⟩, Axis.forall.mpr ⟨hle.1, hle.2, huser.2.2⟩⟩
    obtain ⟨hnx, hny, -⟩ := hfits.nonEmpty_blockAt c
    exact keepsNeighbours_iff (block_blockAt horigin hfits hc) ⟨hnx, hny⟩ htb
  rw [domainKept_iff_blocks]
  constructor
  · intro h
    have hlast : InLayout (P, Q, 1) (P - 1, Q - 1, 0) :=
      Axis.forall.mpr ⟨⟨sub_nonneg.mpr hP, sub_one_lt P⟩, ⟨sub_nonneg.mpr hQ, sub_one_lt Q⟩, le_rfl, one_pos⟩
    obtain ⟨hnx, hny, -⟩ := (h _ hlast).nonEmpty
    have hle : P ≤ user.nx ∧ Q ≤ user.ny := by
      constructor
      · by_contra hlt
        exact hnx.ne' (num_last_block (a := .x) huser.1 (L := (P, Q, 1)) (not_le.mp hlt) rfl)
      · by_contra hlt
        exact hny.ne' (num_last_block (a := .y) huser.2.1 (L := (P, Q, 1)) (not_le.mp hlt) rfl)
    exact ⟨hle, fun c hc => (hreached hle c hc).mp (h c hc)⟩
  · exact fun h c hc => (hreached h.1 c hc).mpr (h.2 c hc)

/-! ## Four columns -/

/-- Four columns of four levels, of which the last is full and the others have only their lowest cell. -/
def fourColumns : Subgrid := newSubgrid 0 0 0 4 1 4 0 0 0 0

def fourTops : Databox ℤ := ⟨4, 1, 1, 0, 0, 0, 1, 1, 1, fun n => if n = 3 then 3 else 0⟩

def fourBottoms : Databox ℤ := ⟨4, 1, 1, 0, 0, 0, 1, 1, 1, fun _ => 0⟩

theorem fourColumns_iff : DomainKept fourColumns fourTops fourBottoms 4 1 ↔
    ((4 : ℤ) ≤ fourColumns.nx ∧ (1 : ℤ) ≤ fourColumns.ny) ∧
      ∀ c, InLayout (4, 1, 1) c → Reached fourColumns fourTops fourBottoms (blockAt fourColumns (4, 1, 1) c) := by
  refine domainKept_iff ⟨rfl, rfl, rfl⟩ (by decide) (by decide) (by decide) ⟨rfl, rfl, fun c _ => Or.inl ⟨le_rfl, ?_⟩⟩
  simp only [coeffAt, fourTops, fourBottoms, fourColumns, newSubgrid]
  split_ifs <;> decide

/-- The third process does not reach as high as the column of the fourth. -/
theorem fourColumns_not_kept : ¬ DomainKept fourColumns fourTops fourBottoms 4 1 := by
  intro h
  have hblock := domainKept_iff_blocks.mp h (2, 0, 0) (Axis.forall.mpr (by decide))
  have hlevel := hblock.levels (3, 0) (by decide) (by decide) 3 (by decide) (by decide)
  exact absurd hlevel (by decide)

end ParFlow.Domain
