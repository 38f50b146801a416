import ParFlow.Comm.Agreement
import ParFlow.Cluster.ClusterExact
import ParFlow.Geom.OctreeVisits
import ParFlow.Geom.SolidDefs

/-! The tags that a process clusters: those of its own subgrid, and of the cells around it
that it receives from the processes that own them. -/

namespace ParFlow.Geom

open FuelRun Cover Clustering Subregion

variable {L : Layout} {s : Subgrid} {c : Cell}

/-! ## Tagging -/

theorem tagInterior_apply (visited : List Cell) (c : Cell) : tagInterior visited c = if c ∈ visited then 1 else 0 := by
  suffices h : ∀ tags : TagData, visited.foldl (fun tags c => Function.update tags c 1) tags c =
      if c ∈ visited then 1 else tags c from h _
  induction visited with
  | nil => exact fun tags => rfl
  | cons d visited ih =>
    intro tags
    rw [List.foldl_cons, ih]
    by_cases hc : c = d
    · subst hc
      simp
    · simp [hc]

theorem faceTag_eq (f : Face) : faceTag f = BitVec.twoPow 32 f.index := rfl

theorem Face.index_lt (f : Face) : f.index < 32 := f.index_lt_eight.trans (by decide)

theorem and_faceTag (x : BitVec 32) (f : Face) : x &&& faceTag f ≠ 0 ↔ x.getLsbD f.index := and_bit x f.index_lt

theorem tagFaces_bit (visited : List (Cell × Face)) (c : Cell) (f : Face) :
    tagFaces visited c &&& faceTag f ≠ 0 ↔ (c, f) ∈ visited := by
  rw [and_faceTag]
  suffices h : ∀ tags : TagData, (visited.foldl (fun tags cf =>
      Function.update tags cf.1 (tags cf.1 ||| faceTag cf.2)) tags c).getLsbD f.index ↔
        (c, f) ∈ visited ∨ (tags c).getLsbD f.index by
    rw [tagFaces, h]
    simp
  induction visited with
  | nil => simp
  | cons cf visited ih =>
    intro tags
    rw [List.foldl_cons, ih, List.mem_cons, or_assoc, or_left_comm]
    refine or_congr_right ?_
    by_cases hc : c = cf.1
    · subst hc
      have hk := cf.2.index_lt
      rw [Function.update_self, faceTag_eq, BitVec.getLsbD_or, BitVec.getLsbD_twoPow, Bool.or_eq_true, or_comm]
      refine or_congr_left ?_
      simp only [hk, decide_true, Bool.true_and, decide_eq_true_eq, Prod.ext_iff, true_and]
      exact ⟨fun h => Face.index_inj h.symm, fun h => congrArg Face.index h.symm⟩
    · rw [Function.update_of_ne hc]
      simp [Prod.ext_iff, hc]

/-! ## The tags of a process before the exchange -/

section Loops

variable {β : Type} {cellOf : β → Cell} {holds : β → Prop} {loop : ℕ → Subgrid → Except Fault (List β)}

/-- The values a loop runs over on the subgrids of a process. -/
theorem tagSubgrids_returns (tag : List β → TagData) (hloop : ∀ t ∈ L.allSubgrids, ∃ out, Returns (fun fuel => loop fuel t) out ∧
      Selects cellOf holds t out) (q : ℤ) :
    ∃ visited, Returns (fun fuel => tagSubgrids (L.own q) (loop fuel) tag) (tag visited) ∧
      ∀ b, b ∈ visited ↔ (∃ t ∈ L.own q, cellOf b ∈ t.cells) ∧ holds b := by
  classical
  choose! out hret hsel using hloop
  have hown : ∀ t ∈ L.own q, t ∈ L.allSubgrids := fun t ht => (Layout.mem_own.mp ht).1
  refine ⟨((L.own q).map out).flatten, ?_, fun b => ?_⟩
  · simp only [tagSubgrids]
    rw [returns_bind_iff (returns_mapM fun t ht => hret t (hown t ht))]
    exact returns_const _
  · rw [List.mem_flatten]
    constructor
    · rintro ⟨l, hl, hb⟩
      obtain ⟨t, ht, rfl⟩ := List.mem_map.mp hl
      obtain ⟨hc, hh⟩ := ((hsel t (hown t ht)).2 b).mp hb
      exact ⟨⟨t, ht, hc⟩, hh⟩
    · rintro ⟨⟨t, ht, hc⟩, hh⟩
      exact ⟨out t, List.mem_map_of_mem ht, ((hsel t (hown t ht)).2 b).mpr ⟨hc, hh⟩⟩

end Loops

/-! ## The exchange -/

/-- The cells whose tags are known to the process of `s`: its own, and the layer of cells behind its
faces that other subgrids own. -/
def Known (L : Layout) (s : Subgrid) (c : Cell) : Prop := c ∈ s.cells ∨ L.Needed updateAllShape s c

theorem vectorUpdateAll_returns (hs : L.own s.process = [s]) {tagsOn : ℕ → ℤ → Except Fault TagData}
    {D : ℤ → TagData} (hD : ∀ q, Returns (fun fuel => tagsOn fuel q) (D q)) :
    ∃ tags, Returns (fun fuel => vectorUpdateAll L.allSubgrids s.process (tagsOn fuel)) tags ∧
      ∀ c, (L.Needed updateAllShape s c ∧ ∃ t ∈ L.allSubgrids, c ∈ t.cells ∧ tags c = D t.process c) ∨
        (¬ L.Needed updateAllShape s c ∧ tags c = D s.process c) := by
  have hmem : s ∈ L.own s.process := hs ▸ List.mem_cons_self
  obtain ⟨recv, hrecv, hex, hproc⟩ : ∃ recv,
      (commRegFromStencil (gridOn L.allSubgrids s.process) updateAllShape).recvRegion.flatten = recv ∧
      Exact cells recv {c | L.Needed updateAllShape s c} ∧
      ∀ u ∈ recv, ∀ c ∈ u.cells, ∃ t ∈ L.allSubgrids, t.process = u.process ∧ c ∈ t.cells := by
    have heq := L.recvRegion_eq updateAllShape s.process
    rw [Layout.comm, hs] at heq
    rw [heq]
    simp only [List.map_cons, List.map_nil, List.flatten_cons, List.flatten_nil, List.append_nil]
    exact ⟨_, rfl, Layout.received_exact updateAllShape hmem⟩
  let received := recv.map fun u => (u, D u.process)
  refine ⟨fun c => (received.find? fun uv => decide (c ∈ uv.1.cells)).elim (D s.process c) fun uv => uv.2 c, ?_,
    fun c => ?_⟩
  · simp only [vectorUpdateAll, hrecv]
    have hpair : ∀ u ∈ recv, Returns (fun fuel => do
        let values ← tagsOn fuel u.process
        .ok (u, values)) (u, D u.process) := fun u _ => (returns_bind_iff (hD u.process)).mpr (returns_const _)
    rw [returns_bind_iff (hD s.process), returns_bind_iff (returns_mapM hpair)]
    refine ⟨0, fun _ _ => congrArg Except.ok (funext fun c => ?_)⟩
    cases received.find? fun uv => decide (c ∈ uv.1.cells) with
    | none => rfl
    | some uv => rfl
  · simp only [received, List.find?_map]
    cases hf : recv.find? fun u => decide (c ∈ u.cells) with
    | none =>
      refine Or.inr ⟨fun hneed => ?_, ?_⟩
      · obtain ⟨u, hu, hc⟩ := (hex.mem_iff c).mpr hneed
        simpa [hc] using List.find?_eq_none.mp hf u hu
      · simp only [Function.comp_def, hf, Option.map_none, Option.elim_none]
    | some u =>
      have hu := List.mem_of_find?_eq_some hf
      have hc : c ∈ u.cells := by simpa using List.find?_some hf
      obtain ⟨t, ht, htu, hct⟩ := hproc u hu c hc
      refine Or.inl ⟨(hex.mem_iff c).mp ⟨u, hu, hc⟩, t, ht, hct, ?_⟩
      simp only [Function.comp_def, hf, Option.map_some, Option.elim_some, htu]

/-- After the exchange a value is known where it occurs in a known cell. -/
theorem exchange_returns {β : Type} {cellOf : β → Cell} {holds : β → Prop}
    {loop : ℕ → Subgrid → Except Fault (List β)} {tag : List β → TagData} (carries : BitVec 32 → β → Prop)
    (hs : L.own s.process = [s])
    (hloop : ∀ t ∈ L.allSubgrids, ∃ out, Returns (fun fuel => loop fuel t) out ∧ Selects cellOf holds t out)
    (htag : ∀ visited b, carries (tag visited (cellOf b)) b ↔ b ∈ visited) :
    ∃ tags, Returns (fun fuel => vectorUpdateAll L.allSubgrids s.process fun q =>
        tagSubgrids (getGridSubgrids L.allSubgrids q) (loop fuel) tag) tags ∧
      (∀ b, carries (tags (cellOf b)) b ↔ Known L s (cellOf b) ∧ holds b) ∧
      ∀ c, ∃ visited, tags c = tag visited c := by
  choose visited hret hmem using fun q => tagSubgrids_returns tag hloop q
  obtain ⟨tags, htags, hcell⟩ := vectorUpdateAll_returns hs hret
  have hcarries : ∀ q b, carries (tag (visited q) (cellOf b)) b ↔
      (∃ t ∈ L.own q, cellOf b ∈ t.cells) ∧ holds b := fun q b => (htag _ b).trans (hmem q b)
  refine ⟨tags, htags, fun b => ?_, fun c => ?_⟩
  · rcases hcell (cellOf b) with ⟨hneed, t, ht, hct, heq⟩ | ⟨hneed, heq⟩
    · have hknown : Known L s (cellOf b) := Or.inr hneed
      rw [heq, hcarries, and_iff_right ⟨t, Layout.mem_own.mpr ⟨ht, rfl⟩, hct⟩, and_iff_right hknown]
    · rw [heq, hcarries, hs]
      refine and_congr_left fun _ => ?_
      simp only [List.mem_singleton, exists_eq_left, Known, hneed, or_false]
  · rcases hcell c with ⟨-, t, -, -, heq⟩ | ⟨-, heq⟩
    · exact ⟨_, heq⟩
    · exact ⟨_, heq⟩

/-! ## The clustered vector -/

/-- The known cells lie within the ghost layers. -/
theorem Known.mem_boundingBox (h : Known L s c) (tags : TagData) : c ∈ (Indicator.mk s tags).boundingBox.cells := by
  have hnear : ∀ a : Axis, s.lo a - 1 ≤ a.coord c ∧ a.coord c < s.lo a + s.num a + 1 := by
    rcases h with hc | ⟨-, ⟨w, hw, hc⟩, -⟩
    · intro a
      have := mem_cells_axis.mp hc a
      omega
    · have hlo : ∀ a, (s.shift w).lo a = s.lo a + a.coord w := fun a => by cases a <;> rfl
      have hnum : ∀ a, (s.shift w).num a = s.num a := fun a => by cases a <;> rfl
      have hunit : ∀ w ∈ updateAllShape, ∀ a : Axis, -1 ≤ a.coord w ∧ a.coord w ≤ 1 := by
        simp only [Axis.forall]
        decide
      intro a
      have h1 := mem_cells_axis.mp hc a
      have h2 := hunit w hw a
      rw [hlo, hnum] at h1
      omega
  refine Box.mem_cells.mpr fun a => ?_
  have := hnear a
  simp only [Indicator.boundingBox, coord_mk, numGhost]
  omega

/-- The clustering of a vector ends exactly when it avoids stuck boxes, and then tiles the tags. -/
theorem bergerRigoutsos_returns {v : Indicator} {tag : BitVec 32} (h : Avoids v tag v.boundingBox Stuck) :
    ∃ boxes, Returns (fun fuel => bergerRigoutsos fuel v (1, 1, 1) tag []) boxes ∧
      Tiles v tag v.boundingBox boxes := by
  obtain ⟨boxes, ⟨N, hN⟩, ht⟩ := findBoxes_returns (Box.Within.refl v.boundingBox) h
  exact ⟨boxes, ⟨N, fun fuel hf => hN (fuel + 1) (hf.trans (Nat.le_succ _))⟩, ht⟩

theorem avoids_of_bergerRigoutsos {v : Indicator} {tag : BitVec 32} {n : ℕ} {boxes : BoxList}
    (h : bergerRigoutsos n v (1, 1, 1) tag [] = .ok boxes) : Avoids v tag v.boundingBox Stuck :=
  fun _ hr hs hst => findBoxes_ne_ok (Box.Within.refl v.boundingBox) hr hs hst (n + 1) boxes h

/-- Tags in known cells of a layout without negative indices. -/
theorem avoids_of_layout {v : Indicator} {tag : BitVec 32} (hL : ∀ t ∈ L.allSubgrids, ∀ a, 0 ≤ t.lo a)
    (hs : s ∈ L.allSubgrids) (hknown : ∀ c, v.Tagged tag c → Known L s c) : Avoids v tag v.boundingBox Stuck := by
  refine avoids_stuck_of_nonneg (Box.Within.refl _) fun c hc a => ?_
  have hin : ∃ t ∈ L.allSubgrids, c ∈ t.cells := by
    rcases hknown c (mem_tagsIn.mp hc).2 with h | ⟨-, -, t, ht, -, h⟩
    · exact ⟨s, hs, h⟩
    · exact ⟨t, ht, h⟩
  obtain ⟨t, ht, hct⟩ := hin
  exact (hL t ht a).trans (mem_cells_axis.mp hct a).1

/-! ## Loops along boxes -/

theorem mem_clipLoop {region : Subgrid} {box : Box} : c ∈ clipLoop region box ↔ c ∈ region.cells ∧ c ∈ box.cells := by
  -- one axis
  have hclip : ∀ {i lo n l u : ℤ}, (max lo l ≤ i ∧ i < min (lo + n - 1) u + 1) ↔ (lo ≤ i ∧ i < lo + n) ∧ l ≤ i ∧ i ≤ u := by
    omega
  rw [mem_cells_iff, Box.mem_cells, Axis.forall]
  simp only [clipLoop, IntLoop.mem_nest, IntLoop.mem_upto, Axis.coord, hclip]
  constructor
  · rintro ⟨⟨hx, hbx⟩, ⟨hy, hby⟩, hz, hbz⟩
    exact ⟨⟨hx, hy, hz⟩, hbx, hby, hbz⟩
  · rintro ⟨⟨hx, hy, hz⟩, hbx, hby, hbz⟩
    exact ⟨⟨hx, hbx⟩, ⟨hy, hby⟩, hz, hbz⟩

theorem clipLoop_nodup (region : Subgrid) (box : Box) : (clipLoop region box).Nodup :=
  IntLoop.nest_nodup (IntLoop.upto_nodup _ _) (IntLoop.upto_nodup _ _) (IntLoop.upto_nodup _ _)

/-- A loop along boxes that tile a set visits its cells in the region. -/
theorem clipLoop_selects {boxes : BoxList} {T : Set Cell} (h : Exact Box.cells boxes T) (region : Subgrid) :
    Selects id (· ∈ T) region (boxes.flatMap (clipLoop region)) := by
  refine ⟨List.nodup_flatMap.mpr ⟨fun b _ => clipLoop_nodup region b, h.1.imp fun {b b'} hd => ?_⟩, fun c => ?_⟩
  · rw [Function.onFun, List.disjoint_left]
    exact fun c hc hc' => Finset.disjoint_left.mp hd (mem_clipLoop.mp hc).2 (mem_clipLoop.mp hc').2
  · have hT : c ∈ T ↔ ∃ b ∈ boxes, c ∈ b.cells := (h.mem_iff c).symm
    simp only [List.mem_flatMap, id_eq, hT]
    constructor
    · rintro ⟨b, hb, hc⟩
      exact ⟨(mem_clipLoop.mp hc).1, b, hb, (mem_clipLoop.mp hc).2⟩
    · rintro ⟨hr, b, hb, hc⟩
      exact ⟨b, hb, mem_clipLoop.mpr ⟨hr, hc⟩⟩

/-- The boxes are computed, and the loop along them runs over what the loop along the octree runs
over, each once. -/
def LoopsAgree {β : Type} (computeBoxes : ℕ → Except Fault GrGeomSolid)
    (boxLoop : GrGeomSolid → Except Fault (List β)) (octreeLoop : ℕ → Except Fault (List β)) : Prop :=
  ∃ solid fast slow, Returns computeBoxes solid ∧ boxLoop solid = .ok fast ∧ Returns octreeLoop slow ∧
    fast.Nodup ∧ fast.Perm slow

end ParFlow.Geom
