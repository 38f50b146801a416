import ParFlow.Geom.PatchPoints
import ParFlow.Geom.PatchTables
import ParFlow.Lib.BucketSlots

/-! The second pass of `MakePatchySolid`: the faces are written into the slots that the first pass has counted. -/

namespace ParFlow.PatchySolid

open IntLoop ExceptLoop TriangleSurface BucketSlots
open ParFlow.Pfb (Databox)
open ParFlow.Topo (gridLoop mem_gridLoop IsCell coeffAt)

theorem scanArray_congr {a b : ℤ → ℤ} {len : ℤ} (h : ∀ i, 0 ≤ i → i < len → a i = b i) (val : ℤ) :
    scanArray val a len = scanArray val b len := by
  unfold scanArray
  congr 1
  refine List.find?_congr fun i hi => ?_
  obtain ⟨h1, h2⟩ := mem_upto.mp hi
  rw [h i h1 h2]

/-! ## The slots -/

section Slots

variable {K : Type} (t : Tally) (cellFaces : ℤ)

/-- The number of entries of `AllPatches`. -/
def patchTotal : ℤ := 6 + t.npUsr + 1

/-- The first slot of a patch. -/
def patchStart (i : ℤ) : ℤ := (patchInfo t i).startIdx

/-- How many faces of a patch have a direction. -/
def faceLoad (l : List (ℤ × FaceRecord)) (i k : ℤ) : ℤ := l.countP fun w => w.1 = i ∧ w.2.face = k

/-- The entry of a patch after some faces. -/
def writtenInfo (l : List (ℤ × FaceRecord)) (i : ℤ) : PatchInfo :=
  { patchInfo t i with pWrite := -1 + load l i, actFaces := faceLoad l i }

structure Written (l : List (ℤ × FaceRecord)) (s : Build K) : Prop where
  patches : ∀ i, 0 ≤ i → i < patchTotal t → s.allPatches i = writtenInfo t l i
  writes : s.writes = place (patchStart t) l

/-- There are slots for all these faces. -/
structure HasSlots (l : List (ℤ × FaceRecord)) : Prop where
  key : ∀ w ∈ l, 0 ≤ w.1 ∧ w.1 < patchTotal t
  slots : ∀ w ∈ l, 0 ≤ patchStart t w.1 ∧ patchStart t w.1 + patchSize t w.1 ≤ cellFaces
  load : ∀ w ∈ l, (load l w.1 : ℤ) ≤ patchSize t w.1

variable {t cellFaces} {l l' : List (ℤ × FaceRecord)} {s : Build K} {w : ℤ × FaceRecord}

theorem HasSlots.of_append (h : HasSlots t cellFaces (l ++ l')) : HasSlots t cellFaces l where
  key w hw := h.key w (List.mem_append_left _ hw)
  slots w hw := h.slots w (List.mem_append_left _ hw)
  load w hw := by
    have hle := h.load w (List.mem_append_left _ hw)
    unfold BucketSlots.load at hle ⊢
    rw [List.countP_append] at hle
    push_cast at hle
    omega

theorem writtenInfo_nil (i : ℤ) : writtenInfo t [] i = patchInfo t i := by
  unfold writtenInfo patchInfo
  split_ifs <;> rfl

theorem faceLoad_concat (i : ℤ) :
    faceLoad (l ++ [w]) i = if w.1 = i then bump (faceLoad l i) w.2.face else faceLoad l i := by
  funext k
  unfold faceLoad
  rw [List.countP_append, List.countP_singleton]
  split_ifs with h1 h2 h2
  · rw [bump_apply, if_pos (of_decide_eq_true h1).2.symm]
    push_cast
    rfl
  · exact absurd (of_decide_eq_true h1).1 h2
  · rw [bump_apply, if_neg fun hk => h1 (decide_eq_true ⟨h2, hk.symm⟩)]
    rfl
  · rfl

theorem writtenInfo_concat (i : ℤ) : writtenInfo t (l ++ [w]) i =
    if w.1 = i then { writtenInfo t l i with
      pWrite := (writtenInfo t l i).pWrite + 1
      actFaces := bump (writtenInfo t l i).actFaces w.2.face }
    else writtenInfo t l i := by
  unfold writtenInfo
  rw [load_concat, faceLoad_concat]
  split_ifs with h
  · rw [Nat.cast_add, Nat.cast_one, ← add_assoc]
  · rfl

/-- One face is written. -/
theorem Written.writeFace (h : Written t l s) (hslots : HasSlots t cellFaces (l ++ [w])) :
    ∃ s', PatchySolid.writeFace cellFaces s w = .ok s' ∧ Written t (l ++ [w]) s' ∧ s'.points = s.points := by
  have hmem : w ∈ l ++ [w] := List.mem_append_right _ (List.mem_singleton_self w)
  obtain ⟨hk0, hk1⟩ := hslots.key w hmem
  obtain ⟨hlo, hhi⟩ := hslots.slots w hmem
  have hload := hslots.load w hmem
  rw [load_concat_self] at hload
  push_cast at hload
  have hentry := h.patches w.1 hk0 hk1
  have hslot : (s.allPatches w.1).startIdx + ((s.allPatches w.1).pWrite + 1) = patchStart t w.1 + load l w.1 := by
    rw [hentry]
    show patchStart t w.1 + (-1 + (load l w.1 : ℤ) + 1) = _
    ring
  unfold PatchySolid.writeFace
  dsimp only
  rw [hslot, if_pos ⟨by omega, by omega⟩]
  refine ⟨_, rfl, ⟨fun i h0 h1 => ?_, ?_⟩, rfl⟩
  · rw [writtenInfo_concat]
    split_ifs with hi
    · subst hi
      rw [← hentry]
      exact Function.update_self _ _ _
    · exact (Function.update_of_ne (Ne.symm hi) _ _).trans (h.patches i h0 h1)
  · rw [place_concat]
    exact congrArg (· ++ _) h.writes

theorem Written.writeFaces (h : Written t l s) (hslots : HasSlots t cellFaces (l ++ l')) :
    ∃ s', l'.foldlM (PatchySolid.writeFace cellFaces) s = .ok s' ∧ Written t (l ++ l') s' ∧ s'.points = s.points := by
  refine foldlM_inv (fun pre s' => Written t (l ++ pre) s' ∧ s'.points = s.points) ⟨by rwa [List.append_nil], rfl⟩ ?_
  rintro pre w post s' rfl ⟨hwritten, hpoints⟩
  have hpre : HasSlots t cellFaces (l ++ pre ++ [w]) := HasSlots.of_append (by simpa using hslots)
  obtain ⟨s'', hs'', hwritten', hpoints'⟩ := hwritten.writeFace hpre
  exact ⟨s'', hs'', by rwa [← List.append_assoc], hpoints'.trans hpoints⟩

end Slots

/-! ## The faces -/

section Faces

variable {K : Type} [Field K] [LinearOrder K] [FloorRing K] (msk : Databox K) (t : Tally)

/-- A neighbour that gets a face in the second pass. -/
abbrev IsFaced (v : ℤ) : Prop := v = 0 ∨ v > 1

/-- A face with the index of its patch. -/
abbrev Entry := ℤ × (ℤ × ℤ) × Side × ℤ

def edgeEntry (c : ℤ × ℤ) (side : Side) : Entry := (faceIndex side, c, side, defPatches (faceIndex side))

def userEntry (c : ℤ × ℤ) (side : Side) : Entry :=
  (scanArray (maskVal msk (c + side.offset)) (patchValue t) (patchTotal t), c, side, maskVal msk (c + side.offset))

/-- The faces that the blocks of a side write. -/
def sideEntries (c : ℤ × ℤ) (side : Side) : List Entry :=
  (if AtEdge msk c side then [edgeEntry c side] else []) ++
    if HasNeighbour msk c side ∧ IsFaced (maskVal msk (c + side.offset)) then [userEntry msk t c side] else []

def cellEntries (c : ℤ × ℤ) : List Entry := faceOrder.flatMap (sideEntries msk t c)

def entries (cells : List (ℤ × ℤ)) : List Entry := cells.flatMap (cellEntries msk t)

/-- What is written for a face, with the numbers of the corners. -/
def recordOf (ourPnts : ℤ × ℤ → Fin 8 → ℤ) (e : Entry) : ℤ × FaceRecord := (e.1, faceRecord (ourPnts e.2.1) e.2.2.1 e.2.2.2)

variable {msk t} {cellFaces : ℤ} {patchValues : ℤ → ℤ}

theorem mem_sideEntries_cell {c : ℤ × ℤ} {side : Side} {e : Entry} (he : e ∈ sideEntries msk t c side) :
    e.2.1 = c ∧ e.2.2.1 = side := by
  unfold sideEntries at he
  rcases List.mem_append.mp he with h | h
  · split_ifs at h
    · obtain rfl := List.mem_singleton.mp h
      exact ⟨rfl, rfl⟩
    · exact absurd h List.not_mem_nil
  · split_ifs at h
    · obtain rfl := List.mem_singleton.mp h
      exact ⟨rfl, rfl⟩
    · exact absurd h List.not_mem_nil

theorem mem_cellEntries_cell {c : ℤ × ℤ} {e : Entry} (he : e ∈ cellEntries msk t c) : e.2.1 = c := by
  obtain ⟨side, -, he⟩ := List.mem_flatMap.mp he
  exact (mem_sideEntries_cell he).1

/-- The values next to a column are found in the table. -/
def Found (msk : Databox K) (t : Tally) : Prop := ∀ c ∈ columns msk, ∀ side, HasNeighbour msk c side →
  IsFaced (maskVal msk (c + side.offset)) → 0 ≤ scanArray (maskVal msk (c + side.offset)) (patchValue t) (patchTotal t)

theorem writeSide_eq (hfound : Found msk t) (hvalues : ∀ i, 0 ≤ i → i < patchTotal t → patchValues i = patchValue t i)
    {c : ℤ × ℤ} (hc : c ∈ columns msk) (ourPnts : ℤ × ℤ → Fin 8 → ℤ) (side : Side) (s : Build K) :
    writeSide msk cellFaces t.npUsr patchValues (ourPnts c) c s side =
      ((sideEntries msk t c side).map (recordOf ourPnts)).foldlM (writeFace cellFaces) s := by
  have hscan : ∀ v, scanArray v patchValues (6 + t.npUsr + 1) = scanArray v (patchValue t) (patchTotal t) := fun v =>
    scanArray_congr hvalues v
  have hone : ∀ (s : Build K) w, [w].foldlM (writeFace cellFaces) s = writeFace cellFaces s w := fun _ _ => bind_pure _
  have huser : ∀ s : Build K, (if HasNeighbour msk c side then
        if maskVal msk (c + side.offset) = 0 ∨ maskVal msk (c + side.offset) > 1 then
          if maskVal msk (c + side.offset) < 0 then (.error (.status (-2)) : Except Stop (Build K))
          else if scanArray (maskVal msk (c + side.offset)) patchValues (6 + t.npUsr + 1) < 0 then .error (.status (-1))
            else writeFace cellFaces s (scanArray (maskVal msk (c + side.offset)) patchValues (6 + t.npUsr + 1),
              faceRecord (ourPnts c) side (maskVal msk (c + side.offset)))
        else .ok s
      else .ok s) = ((if HasNeighbour msk c side ∧ IsFaced (maskVal msk (c + side.offset)) then [userEntry msk t c side]
        else []).map (recordOf ourPnts)).foldlM (writeFace cellFaces) s := by
    intro s
    by_cases hn : HasNeighbour msk c side
    · by_cases hf : IsFaced (maskVal msk (c + side.offset))
      · have hidx := hfound c hc side hn hf
        rw [if_pos hn, if_pos hf, if_neg (by omega), hscan, if_neg (not_lt.mpr hidx), if_pos ⟨hn, hf⟩]
        exact (hone _ _).symm
      · rw [if_pos hn, if_neg hf, if_neg (fun h => hf h.2)]
        rfl
    · rw [if_neg hn, if_neg (fun h => hn h.1)]
      rfl
  unfold writeSide sideEntries
  rw [List.map_append, List.foldlM_append]
  simp only [huser]
  by_cases hedge : AtEdge msk c side
  · rw [if_pos hedge, if_pos hedge]
    rw [List.map_singleton, hone]
    rfl
  · rw [if_neg hedge, if_neg hedge]
    rfl

theorem writeSides_eq (hfound : Found msk t) (hvalues : ∀ i, 0 ≤ i → i < patchTotal t → patchValues i = patchValue t i)
    {c : ℤ × ℤ} (hc : c ∈ columns msk) (ourPnts : ℤ × ℤ → Fin 8 → ℤ) (s : Build K) :
    faceOrder.foldlM (writeSide msk cellFaces t.npUsr patchValues (ourPnts c) c) s =
      ((cellEntries msk t c).map (recordOf ourPnts)).foldlM (writeFace cellFaces) s := by
  unfold cellEntries
  rw [List.map_flatMap, foldlM_flatMap]
  exact foldlM_congr (fun side _ s => writeSide_eq hfound hvalues hc ourPnts side s) s

/-! ## The pass -/

variable {checked : Bool} {top bot : Databox K}

/-- The points and the faces after some columns. -/
structure Passed (checked : Bool) (msk top bot : Databox K) (t : Tally) (pre : List (ℤ × ℤ)) (ourPnts : ℤ × ℤ → Fin 8 → ℤ)
    (s : Build K) : Prop where
  points : List.Forall₂ (IsPoint checked msk top bot) (cornerList msk pre) s.points
  names : ∀ c ∈ pre, ∀ km, Names msk (cornerList msk pre) (ourPnts c km) (point c km)
  written : Written t ((entries msk t pre).map (recordOf ourPnts)) s

variable [IsStrictOrderedRing K]

theorem Passed.step (hmask : IsIntegral msk) (hread : Readable checked msk top bot) (hfound : Found msk t)
    (hvalues : ∀ i, 0 ≤ i → i < patchTotal t → patchValues i = patchValue t i)
    (hslots : ∀ ourPnts, HasSlots t cellFaces ((entries msk t (columns msk)).map (recordOf ourPnts)))
    {pre post : List (ℤ × ℤ)} {c : ℤ × ℤ} (hl : columns msk = pre ++ c :: post) {ourPnts : ℤ × ℤ → Fin 8 → ℤ} {s : Build K}
    (h : Passed checked msk top bot t pre ourPnts s) :
    ∃ ourPnts' s', buildCell checked msk top bot cellFaces t.npUsr patchValues s c = .ok s' ∧
      Passed checked msk top bot t (pre ++ [c]) ourPnts' s' := by
  have hc : c ∈ columns msk := hl ▸ List.mem_append_right _ List.mem_cons_self
  have hnotMem : c ∉ pre := by
    have hpairwise := columns_pairwise msk
    rw [hl, List.pairwise_append] at hpairwise
    intro hmem
    have hbefore := hpairwise.2.2 c hmem c List.mem_cons_self
    unfold Before at hbefore
    omega
  obtain ⟨r, hr, hpoints, hnames⟩ := addPoints_column hmask hread hl h.points
  -- the numbers of the earlier columns stay what they are
  let ourPnts' := Function.update ourPnts c r.2
  have hsame : ∀ c' ∈ pre, ourPnts' c' = ourPnts c' := fun c' hc' => Function.update_of_ne (ne_of_mem_of_not_mem hc' hnotMem) _ _
  have hself : ourPnts' c = r.2 := Function.update_self _ _ _
  have hold : (entries msk t pre).map (recordOf ourPnts') = (entries msk t pre).map (recordOf ourPnts) := by
    refine List.map_congr_left fun e he => ?_
    obtain ⟨c', hc', he⟩ := List.mem_flatMap.mp he
    unfold recordOf
    rw [mem_cellEntries_cell he, hsame c' hc']
  have hentries : entries msk t (pre ++ [c]) = entries msk t pre ++ cellEntries msk t c := by
    unfold entries
    rw [List.flatMap_append, List.flatMap_singleton]
  have hwritten : Written t ((entries msk t pre).map (recordOf ourPnts')) { s with points := r.1 } := by
    rw [hold]
    exact ⟨h.written.patches, h.written.writes⟩
  have hslots' : HasSlots t cellFaces ((entries msk t pre).map (recordOf ourPnts') ++ (cellEntries msk t c).map (recordOf ourPnts')) := by
    have hall := hslots ourPnts'
    rw [hl] at hall
    unfold entries at hall ⊢
    rw [List.flatMap_append, List.flatMap_cons, ← List.append_assoc, List.map_append, List.map_append] at hall
    exact HasSlots.of_append hall
  obtain ⟨s', hs', hwritten', hpoints'⟩ := hwritten.writeFaces hslots'
  refine ⟨ourPnts', s', ?_, ?_, ?_, ?_⟩
  · unfold buildCell
    rw [if_pos (mem_columns.mp hc).2, bind_ok hr]
    dsimp only
    rw [← hself, writeSides_eq hfound hvalues hc]
    exact hs'
  · rw [hpoints']
    exact hpoints
  · intro c' hc' km
    rcases List.mem_append.mp hc' with hmem | hmem
    · rw [hsame c' hmem, show cornerList msk (pre ++ [c]) = cornerList msk pre ++ newCorners msk c by
        unfold cornerList; rw [List.flatMap_append, List.flatMap_singleton]]
      exact (h.names c' hmem km).append _
    · rw [List.mem_singleton.mp hmem, hself]
      exact hnames km
  · rwa [hentries, List.map_append]

/-- The second pass ends with all points and all faces. -/
theorem buildCells_eq (hmask : IsIntegral msk) (hread : Readable checked msk top bot) (hfound : Found msk t)
    (hvalues : ∀ i, 0 ≤ i → i < patchTotal t → patchValues i = patchValue t i)
    (hslots : ∀ ourPnts, HasSlots t cellFaces ((entries msk t (columns msk)).map (recordOf ourPnts)))
    {allPatches : ℤ → PatchInfo} (htable : ∀ i, 0 ≤ i → i < patchTotal t → allPatches i = patchInfo t i) :
    ∃ ourPnts s, (gridLoop msk.nx msk.ny).foldlM (buildCell checked msk top bot cellFaces t.npUsr patchValues)
      ⟨[], allPatches, []⟩ = .ok s ∧ Passed checked msk top bot t (columns msk) ourPnts s := by
  have hskip : (gridLoop msk.nx msk.ny).foldlM (buildCell checked msk top bot cellFaces t.npUsr patchValues) ⟨[], allPatches, []⟩ =
      (columns msk).foldlM (buildCell checked msk top bot cellFaces t.npUsr patchValues) ⟨[], allPatches, []⟩ := by
    unfold columns actives
    rw [List.foldlM_filter]
    refine foldlM_congr (fun c _ s => ?_) _
    simp only [decide_eq_true_eq]
    split_ifs with hactive
    · rfl
    · exact if_neg hactive
  have hstart : Written t ((entries msk t []).map (recordOf fun _ _ => -1)) (⟨[], allPatches, []⟩ : Build K) := by
    refine ⟨fun i h0 h1 => ?_, rfl⟩
    show allPatches i = writtenInfo t [] i
    rw [writtenInfo_nil, htable i h0 h1]
  rw [hskip]
  obtain ⟨s, hs, ourPnts, hpassed⟩ := foldlM_inv (fun pre s => ∃ ourPnts, Passed checked msk top bot t pre ourPnts s)
    ⟨fun _ _ => -1, .nil, fun c hc => absurd hc List.not_mem_nil, hstart⟩ fun pre c post s hl ⟨ourPnts, h⟩ => by
      obtain ⟨ourPnts', s', hs', h'⟩ := h.step hmask hread hfound hvalues hslots hl
      exact ⟨s', hs', ourPnts', h'⟩
  exact ⟨ourPnts, s, hs, hpassed⟩

end Faces

end ParFlow.PatchySolid
