import ParFlow.Geom.PatchCounts

/-! The surface that `MakePatchySolid` builds is closed: its points are the corners of the solid, and its faces are the outer
faces of the columns. -/

namespace ParFlow.PatchySolid

open IntLoop ExceptLoop TriangleSurface BucketSlots
open ParFlow.Pfb (Databox)
open ParFlow.Topo (gridLoop mem_gridLoop IsCell coeffAt)

section

variable {K : Type} [Field K] [LinearOrder K] [FloorRing K] {checked : Bool} {msk top bot : Databox K}

/-! ## Elevations -/

theorem readable_unchecked (msk top bot : Databox K) : Readable false msk top bot := by
  intro c _ km
  simp [elevation, meanSlope, readCoeff, bind, Except.bind]

omit [Field K] [LinearOrder K] [FloorRing K] in
theorem readCoeff_ok {d : Databox K} {c : ℤ × ℤ} (hc : IsCell d c) : readCoeff checked d c.1 c.2 = .ok (coeffAt d c.1 c.2) :=
  if_neg fun h => h.2 hc

omit [LinearOrder K] [FloorRing K] in
theorem meanSlope_ok {d : Databox K} {i j : Fin 4 → ℤ} (h : ∀ k, IsCell d (i k, j k)) :
    ∃ z, meanSlope checked msk d i j = .ok z := by
  unfold meanSlope
  rw [readCoeff_ok (h 0), bind_ok rfl, readCoeff_ok (h 1), bind_ok rfl, readCoeff_ok (h 2), bind_ok rfl, readCoeff_ok (h 3)]
  exact ⟨_, rfl⟩

theorem mainOff_bounds {p n : ℤ} (h0 : 0 ≤ p) (hp : p < n) (hn : 2 ≤ n) (k : Fin 4) :
    0 ≤ p + mainOff p n k ∧ p + mainOff p n k < n := by
  unfold mainOff
  split_ifs <;> fin_cases k <;> simp <;> omega

theorem crossOff_bounds {p n far : ℤ} (h0 : 0 ≤ p) (hp : p < n) (hfar : far ≤ 0) (hn : 0 < n + far) :
    0 ≤ p + crossOff p n far ∧ p + crossOff p n far < n := by
  unfold crossOff
  split_ifs <;> omega

/-- In a grid that is not too thin the interpolation stays inside. -/
theorem readable_of_size (htop : SameGrid msk top) (hbot : SameGrid msk bot) (hnx : 2 ≤ msk.nx) (hny : 3 ≤ msk.ny) :
    Readable checked msk top bot := by
  intro c hc km
  obtain ⟨⟨hx0, hx1⟩, hy0, hy1⟩ := (mem_columns.mp hc).1
  have hd : SameGrid msk (if km = 0 ∨ km = 1 ∨ km = 2 ∨ km = 3 then bot else top) := by
    split_ifs
    · exact hbot
    · exact htop
  unfold elevation
  dsimp only
  generalize (if km = 0 ∨ km = 1 ∨ km = 2 ∨ km = 3 then bot else top) = d at hd
  obtain ⟨hdx, hdy, -⟩ := hd
  have hcell : ∀ p : ℤ × ℤ, (0 ≤ p.1 ∧ p.1 < msk.nx) ∧ 0 ≤ p.2 ∧ p.2 < msk.ny → IsCell d p := fun p hp => by
    rw [hdx, hdy] at hp
    exact hp
  obtain ⟨dxb, hdxb⟩ := meanSlope_ok fun k =>
    hcell (c.1 + mainOff c.1 msk.nx k, c.2 + crossOff c.2 msk.ny (-2))
      ⟨mainOff_bounds hx0 hx1 hnx k, crossOff_bounds hy0 hy1 (by decide) (by omega)⟩
  obtain ⟨dyb, hdyb⟩ := meanSlope_ok fun k =>
    hcell (c.1 + crossOff c.1 msk.nx (-1), c.2 + mainOff c.2 msk.ny k)
      ⟨crossOff_bounds hx0 hx1 (by decide) (by omega), mainOff_bounds hy0 hy1 (by omega) k⟩
  rw [bind_ok hdxb, bind_ok hdyb, readCoeff_ok (hcell c ⟨⟨hx0, hx1⟩, hy0, hy1⟩)]
  exact ⟨_, rfl⟩

/-! ## Both passes -/

/-- What a run that comes to its end has built. -/
structure Built (checked : Bool) (msk top bot : Databox K) (ourPnts : ℤ × ℤ → Fin 8 → ℤ) (s : Solid K) : Prop where
  tally : TallyOf msk s.tally
  cellFaces : s.cellFaces = countFaces s.tally
  nonBlanks : s.nonBlanks = ((upto 0 (patchTotal s.tally)).countP fun i => patchSize s.tally i > 0)
  passed : Passed checked msk top bot s.tally (columns msk) ourPnts s.build

section Exact

variable [IsStrictOrderedRing K]

theorem buildSolid_cases (hnz : msk.nz = 1) (htop : SameGrid msk top) (hbot : SameGrid msk bot) (hmask : IsIntegral msk)
    (hread : Readable checked msk top bot) {room : ℤ} (hroom : 1 ≤ room) :
    (∃ ourPnts s, buildSolid checked msk top bot room = .ok s ∧ Built checked msk top bot ourPnts s) ∨
      (buildSolid checked msk top bot room = .error .bounds ∧ TooMany (neighbours msk)) := by
  rw [buildSolid_start hnz htop hbot]
  rcases tallyMask_cases msk with ⟨t, ht, htallied⟩ | ⟨e, he, rfl, hmany⟩
  · have hsorted := htallied.sort
    rw [bind_ok ht]
    dsimp only
    generalize sortPatches t = t at hsorted
    rcases buildTable_cases hsorted.users hsorted.defs_nonneg
      fun _ => ⟨0, 0, 0, 0, 0, fun _ => 0⟩ with ⟨table, htable, hlen, hentries⟩ | ⟨e, -, -, hlt⟩
    · obtain ⟨patchValues, hvalues, hvalue⟩ := buildValues_eq hsorted.users.low hlen table.allPatches fun _ => 0
      have hpatch : ∀ i, 0 ≤ i → i < patchTotal t → patchValues i = patchValue t i := by
        intro i h0 hi
        rw [hvalue i h0 hi, hentries.entry i h0 hi]
        unfold patchInfo
        split_ifs <;> rfl
      obtain ⟨ourPnts, build, hbuild, hpassed⟩ := buildCells_eq hmask hread hsorted.found hpatch hsorted.hasSlots hentries.entry
      rw [bind_ok htable, bind_ok hvalues, bind_ok hbuild]
      exact Or.inl ⟨ourPnts, _, rfl, hsorted, rfl, hentries.nonBlanks, hpassed⟩
    · omega
  · rw [he]
    exact Or.inr ⟨rfl, hmany⟩

end Exact

/-! ## The faces -/

def faceOf (e : Entry) : (ℤ × ℤ) × Side := (e.2.1, e.2.2.1)

omit [Field K] [LinearOrder K] [FloorRing K] in
/-- The grid has a cell behind a face, or the face is at its edge. -/
theorem neighbour_cases {c : ℤ × ℤ} (hc : IsCell msk c) (side : Side) :
    (side = .top ∨ side = .bottom) ∧ AtEdge msk c side ∧ ¬ HasNeighbour msk c side ∨
      (side ≠ .top ∧ side ≠ .bottom) ∧ AtEdge msk c side ∧ ¬ HasNeighbour msk c side ∧ ¬ IsCell msk (c + side.offset) ∨
      (side ≠ .top ∧ side ≠ .bottom) ∧ ¬ AtEdge msk c side ∧ HasNeighbour msk c side ∧ IsCell msk (c + side.offset) := by
  obtain ⟨⟨hx0, hx1⟩, hy0, hy1⟩ := hc
  cases side with
  | top => exact Or.inl ⟨Or.inl rfl, trivial, fun h => h⟩
  | bottom => exact Or.inl ⟨Or.inr rfl, trivial, fun h => h⟩
  | west =>
    refine Or.inr ?_
    simp only [AtEdge, HasNeighbour, IsCell, Side.offset, Prod.fst_add, Prod.snd_add]
    by_cases h : c.1 = 0
    · exact Or.inl ⟨by decide, h, by omega, by omega⟩
    · exact Or.inr ⟨by decide, h, by omega, by omega⟩
  | east =>
    refine Or.inr ?_
    simp only [AtEdge, HasNeighbour, IsCell, Side.offset, Prod.fst_add, Prod.snd_add]
    by_cases h : c.1 = msk.nx - 1
    · exact Or.inl ⟨by decide, h, by omega, by omega⟩
    · exact Or.inr ⟨by decide, h, by omega, by omega⟩
  | south =>
    refine Or.inr ?_
    simp only [AtEdge, HasNeighbour, IsCell, Side.offset, Prod.fst_add, Prod.snd_add]
    by_cases h : c.2 = 0
    · exact Or.inl ⟨by decide, h, by omega, by omega⟩
    · exact Or.inr ⟨by decide, h, by omega, by omega⟩
  | north =>
    refine Or.inr ?_
    simp only [AtEdge, HasNeighbour, IsCell, Side.offset, Prod.fst_add, Prod.snd_add]
    by_cases h : c.2 = msk.ny - 1
    · exact Or.inl ⟨by decide, h, by omega, by omega⟩
    · exact Or.inr ⟨by decide, h, by omega, by omega⟩

theorem sideEntries_faces {t : Tally} {c : ℤ × ℤ} (hc : c ∈ columns msk) (hnonneg : ∀ v ∈ neighbours msk, 0 ≤ v) (side : Side) :
    (sideEntries msk t c side).map faceOf = if Exposed (columns msk).toFinset (c, side) then [(c, side)] else [] := by
  have hexposed : Exposed (columns msk).toFinset (c, side) ↔ side = .top ∨ side = .bottom ∨ c + side.offset ∉ columns msk := by
    unfold Exposed
    rw [List.mem_toFinset, List.mem_toFinset]
    exact and_iff_right hc
  unfold sideEntries
  rw [List.map_append]
  rcases neighbour_cases (mem_columns.mp hc).1 side with ⟨hside, hedge, hn⟩ | ⟨-, hedge, hn, hout⟩ | ⟨hside, hedge, hn, hin⟩
  · rw [if_pos hedge, if_neg fun h => hn h.1, if_pos (hexposed.mpr (hside.imp_right Or.inl))]
    rfl
  · rw [if_pos hedge, if_neg fun h => hn h.1,
      if_pos (hexposed.mpr (Or.inr (Or.inr fun h => hout (mem_columns.mp h).1)))]
    rfl
  · have hfaced : IsFaced (maskVal msk (c + side.offset)) ↔ c + side.offset ∉ columns msk := by
      rw [mem_columns, and_iff_right hin]
      constructor
      · exact fun h => by omega
      · intro hne
        have h0 := hnonneg _ (mem_neighbours.mpr ⟨⟨c, hc, side, hn, rfl⟩, hne⟩)
        omega
    rw [if_neg hedge]
    by_cases h : c + side.offset ∈ columns msk
    · rw [if_neg fun hf => hfaced.mp hf.2 h, if_neg fun he => (hexposed.mp he).elim hside.1 fun he => he.elim hside.2 fun hno => hno h]
      rfl
    · rw [if_pos ⟨hn, hfaced.mpr h⟩, if_pos (hexposed.mpr (Or.inr (Or.inr h)))]
      rfl

theorem entries_faces {t : Tally} (hnonneg : ∀ v ∈ neighbours msk, 0 ≤ v) : (entries msk t (columns msk)).map faceOf =
    (columns msk).flatMap fun c => (faceOrder.filter fun side => Exposed (columns msk).toFinset (c, side)).map (c, ·) := by
  unfold entries
  rw [List.map_flatMap]
  refine List.flatMap_congr fun c hc => ?_
  rw [cellEntries, List.map_flatMap, ← flatMap_ite]
  exact List.flatMap_congr fun side _ => sideEntries_faces hc hnonneg side

theorem faces_nodup {t : Tally} (hnonneg : ∀ v ∈ neighbours msk, 0 ≤ v) : ((entries msk t (columns msk)).map faceOf).Nodup := by
  rw [entries_faces hnonneg, List.nodup_flatMap]
  constructor
  · exact fun c _ => ((show faceOrder.Nodup by decide).filter _).map fun a b h => (Prod.mk.inj h).2
  · refine (columns_pairwise msk).imp fun {c c'} hbefore f hf hf' => ?_
    obtain ⟨side, -, rfl⟩ := List.mem_map.mp hf
    obtain ⟨side', -, heq⟩ := List.mem_map.mp hf'
    rw [(Prod.mk.inj heq).1] at hbefore
    unfold Before at hbefore
    omega

theorem mem_faces {t : Tally} (hnonneg : ∀ v ∈ neighbours msk, 0 ≤ v) (f : (ℤ × ℤ) × Side) :
    f ∈ (entries msk t (columns msk)).map faceOf ↔ Exposed (columns msk).toFinset f := by
  rw [entries_faces hnonneg, List.mem_flatMap]
  constructor
  · rintro ⟨c, -, hf⟩
    obtain ⟨side, hside, rfl⟩ := List.mem_map.mp hf
    exact of_decide_eq_true (List.mem_filter.mp hside).2
  · intro h
    exact ⟨f.1, List.mem_toFinset.mp h.1, List.mem_map.mpr
      ⟨f.2, List.mem_filter.mpr ⟨mem_faceOrder f.2, decide_eq_true h⟩, rfl⟩⟩

/-! ## The surface -/

def faceTriangles (side : Side) : List (Corner × Corner × Corner) :=
  [mapCorners cornerOf (faceCorners side).1, mapCorners cornerOf (faceCorners side).2]

def solidPattern : BoxPattern where
  faces := faceTriangles
  box := by decide +kernel
  contains := by decide +kernel
  acrossX := by decide +kernel
  acrossY := by decide +kernel

/-- The number that the corner of a column has among the corners. -/
def number (corners : List (ℤ × ℤ × Bool)) (c : ℤ × ℤ) (km : Fin 8) : ℤ := corners.idxOf (point c km)

/-- The corners of the columns have one point each, every slot is assigned once, the faces that are written are the outer faces,
with the numbers of their own corners, and the triangles fit together. -/
def IsClosedSurface (checked : Bool) (msk top bot : Databox K) (s : Solid K) : Prop :=
  ∃ (corners : List (ℤ × ℤ × Bool)) (faces : List ((ℤ × ℤ) × Side)),
    (corners.Nodup ∧ (∀ p, p ∈ corners ↔ ∃ c ∈ columns msk, ∃ q, cornerPoint c q = p) ∧
      List.Forall₂ (IsPoint checked msk top bot) corners s.build.points) ∧
    (s.build.writes.map Prod.fst).Perm (upto 0 s.cellFaces) ∧
    (faces.Nodup ∧ (∀ f, f ∈ faces ↔ Exposed (columns msk).toFinset f) ∧
      s.build.writes.map (fun w => (w.2.first, w.2.second, w.2.face)) = faces.map fun f =>
        (mapCorners (number corners f.1) (faceCorners f.2).1, mapCorners (number corners f.1) (faceCorners f.2).2, faceIndex f.2)) ∧
    Closed s.triangles

omit [Field K] [LinearOrder K] [FloorRing K] in
theorem patch_eq_table (s : Solid K) : s.patch = table FaceRecord.blank s.build.writes := rfl

omit [Field K] [LinearOrder K] [FloorRing K] in
theorem triangles_eq (s : Solid K) : s.triangles =
    ((upto 0 s.cellFaces).map s.patch).flatMap fun r => [r.first, r.second] := by
  rw [List.flatMap_map]
  rfl

section Exact

variable [IsStrictOrderedRing K] {ourPnts : ℤ × ℤ → Fin 8 → ℤ} {s : Solid K}

theorem mem_cornerList (hmask : IsIntegral msk) (p : ℤ × ℤ × Bool) :
    p ∈ cornerList msk (columns msk) ↔ ∃ c ∈ columns msk, ∃ q, cornerPoint c q = p := by
  have hsurj : ∀ q, ∃ km, cornerOf km = q := by decide
  refine (columns_adds hmask).mem_iff.trans (exists_congr fun c => and_congr_right fun _ => mem_cornersOf.trans ?_)
  constructor
  · exact fun ⟨km, h⟩ => ⟨cornerOf km, h⟩
  · rintro ⟨q, h⟩
    obtain ⟨km, rfl⟩ := hsurj q
    exact ⟨km, h⟩

/-- The records in the order in which they are written. -/
def records (t : Tally) (msk : Databox K) (ourPnts : ℤ × ℤ → Fin 8 → ℤ) : List (ℤ × FaceRecord) :=
  (entries msk t (columns msk)).map (recordOf ourPnts)

omit [IsStrictOrderedRing K] in
/-- Without negative values next to the columns the faces fill all slots. -/
theorem Built.slots (h : Built checked msk top bot ourPnts s) (hnonneg : ∀ v ∈ neighbours msk, 0 ≤ v) :
    (s.build.writes.map Prod.fst).Perm (upto 0 s.cellFaces) ∧
      ((upto 0 s.cellFaces).map s.patch).Perm ((records s.tally msk ourPnts).map Prod.snd) := by
  have hslots := h.tally.hasSlots ourPnts
  have hlen : countFaces s.tally = ((entries msk s.tally (columns msk)).map (recordOf ourPnts)).length := by
    rw [List.length_map]
    exact (h.tally.length_entries_eq_iff.mpr hnonneg).symm
  rw [patch_eq_table, h.passed.written.writes, h.cellFaces]
  exact ⟨place_perm h.tally.apart hslots.load hslots.slots hlen, table_perm h.tally.apart hslots.load hslots.slots hlen⟩

theorem Built.isClosedSurface (h : Built checked msk top bot ourPnts s) (hmask : IsIntegral msk)
    (hnonneg : ∀ v ∈ neighbours msk, 0 ≤ v) (hdx : msk.dx ≠ 0) (hdy : msk.dy ≠ 0) : IsClosedSurface checked msk top bot s := by
  obtain ⟨hslots, hpatch⟩ := h.slots hnonneg
  have hcell : ∀ e ∈ entries msk s.tally (columns msk), e.2.1 ∈ columns msk := fun e he => by
    obtain ⟨c, hc, he⟩ := List.mem_flatMap.mp he
    rwa [mem_cellEntries_cell he]
  have hnumber : ∀ c ∈ columns msk, ourPnts c = number (cornerList msk (columns msk)) c := fun c hc =>
    funext fun km => (h.passed.names c hc km).eq hdx hdy
  have hfaces := faces_nodup (t := s.tally) hnonneg
  refine ⟨cornerList msk (columns msk), (entries msk s.tally (columns msk)).map faceOf,
    ⟨(columns_adds hmask).nodup, mem_cornerList hmask, h.passed.points⟩, hslots, ⟨hfaces, mem_faces hnonneg, ?_⟩, ?_⟩
  · have hwrites : s.build.writes.map (fun w => (w.2.first, w.2.second, w.2.face)) =
        (s.build.writes.map Prod.snd).map fun r => (r.first, r.second, r.face) := by
      rw [List.map_map]
      rfl
    rw [hwrites, h.passed.written.writes, place_snd, List.map_map, List.map_map, List.map_map]
    refine List.map_congr_left fun e he => ?_
    show (mapCorners (ourPnts e.2.1) _, mapCorners (ourPnts e.2.1) _, _) = _
    rw [hnumber e.2.1 (hcell e he)]
    rfl
  · have hclosed := BoxPattern.exposed_closed (P := solidPattern) (fun p => ((cornerList msk (columns msk)).idxOf p : ℤ))
      (columns msk).toFinset hfaces (mem_faces hnonneg)
    refine hclosed.of_perm ?_
    rw [triangles_eq]
    refine (hpatch.flatMap_right _).trans (List.Perm.of_eq ?_)
    unfold records
    rw [List.map_map, List.flatMap_map, List.flatMap_map]
    refine List.flatMap_congr fun e he => ?_
    show [mapCorners (ourPnts e.2.1) _, mapCorners (ourPnts e.2.1) _] = _
    rw [hnumber e.2.1 (hcell e he)]
    rfl

/-! ## Masks -/

theorem maskVal_natCast {c : ℤ × ℤ} {n : ℕ} (h : coeffAt msk c.1 c.2 = n) : maskVal msk c = n := by
  unfold maskVal
  rw [h, if_neg (not_lt.mpr (Nat.cast_nonneg n)), Int.floor_natCast]

omit [IsStrictOrderedRing K] in
theorem neighbours_cell {v : ℤ} (hv : v ∈ neighbours msk) : ∃ c, IsCell msk c ∧ maskVal msk c = v := by
  obtain ⟨⟨c, hc, side, hn, rfl⟩, -⟩ := mem_neighbours.mp hv
  rcases neighbour_cases (mem_columns.mp hc).1 side with ⟨-, -, hno⟩ | ⟨-, -, hno, -⟩ | ⟨-, -, -, hcell⟩
  · exact absurd hn hno
  · exact absurd hn hno
  · exact ⟨_, hcell, rfl⟩

omit [IsStrictOrderedRing K] in
/-- Thirty values have room. -/
theorem not_tooMany
    (hfew : (((gridLoop msk.nx msk.ny).map (maskVal msk)).toFinset.erase 1).card ≤ 30) : ¬ TooMany (neighbours msk) := by
  rintro ⟨pre, v, post, heq, hcard, hv⟩
  have hvalue : ∀ w ∈ neighbours msk, w ∈ ((gridLoop msk.nx msk.ny).map (maskVal msk)).toFinset.erase 1 := by
    intro w hw
    obtain ⟨c, hc, hval⟩ := neighbours_cell hw
    exact Finset.mem_erase.mpr ⟨(mem_neighbours.mp hw).2, List.mem_toFinset.mpr (List.mem_map.mpr ⟨c, mem_gridLoop.mpr hc, hval⟩)⟩
  have hsub : insert v (registered pre) ⊆ ((gridLoop msk.nx msk.ny).map (maskVal msk)).toFinset.erase 1 := by
    intro w hw
    refine hvalue w ?_
    rw [heq, List.mem_append, List.mem_cons]
    rcases Finset.mem_insert.mp hw with rfl | hw
    · exact Or.inr (Or.inl rfl)
    · exact Or.inl (List.mem_toFinset.mp (Finset.mem_of_mem_erase hw))
  have hle := (Finset.card_le_card hsub).trans hfew
  rw [Finset.card_insert_of_notMem hv] at hle
  unfold npTot at hcard
  omega

/-- On every mask that is not too thin, with at most thirty values besides 1, the routine builds a closed surface. -/
theorem buildSolid_closed (msk top bot : Databox K) (hnz : msk.nz = 1) (htop : SameGrid msk top) (hbot : SameGrid msk bot)
    (hnx : 3 ≤ msk.nx) (hny : 3 ≤ msk.ny) (hmask : ∀ c, IsCell msk c → ∃ n : ℕ, coeffAt msk c.1 c.2 = n)
    (hfew : (((gridLoop msk.nx msk.ny).map (maskVal msk)).toFinset.erase 1).card ≤ 30) (hdx : 0 < msk.dx) (hdy : 0 < msk.dy)
    (room : ℤ) (hroom : 1 ≤ room) : ∃ s, buildSolid true msk top bot room = .ok s ∧ IsClosedSurface true msk top bot s := by
  have hintegral : IsIntegral msk := fun c hc => by
    obtain ⟨n, hn⟩ := hmask c hc
    exact ⟨n, by rw [hn, Int.cast_natCast]⟩
  have hnonneg : ∀ v ∈ neighbours msk, 0 ≤ v := fun v hv => by
    obtain ⟨c, hc, rfl⟩ := neighbours_cell hv
    obtain ⟨n, hn⟩ := hmask c hc
    rw [maskVal_natCast hn]
    exact Int.natCast_nonneg n
  rcases buildSolid_cases hnz htop hbot hintegral (readable_of_size htop hbot (by omega) hny) hroom with
    ⟨ourPnts, s, hs, hbuilt⟩ | ⟨-, hmany⟩
  · exact ⟨s, hs, hbuilt.isClosedSurface hintegral hnonneg hdx.ne' hdy.ne'⟩
  · exact absurd hmany (not_tooMany hfew)

end Exact

/-! ## One column in the middle -/

/-- Nine cells, of which the one in the middle is active. -/
def middleMask : Databox ℚ := ⟨3, 3, 1, 0, 0, 0, 1, 1, 1, fun p => if p = 4 then 1 else 2⟩

theorem middleMask_closed : ∃ s, buildSolid true middleMask middleMask middleMask 1 = .ok s ∧
    IsClosedSurface true middleMask middleMask middleMask s :=
  buildSolid_closed middleMask middleMask middleMask rfl ⟨rfl, rfl, rfl⟩ ⟨rfl, rfl, rfl⟩ (by decide) (by decide)
    (fun c _ => by
      by_cases h : middleMask.coeff c.1 c.2 0 = 4
      · exact ⟨1, (if_pos h).trans Nat.cast_one.symm⟩
      · exact ⟨2, (if_neg h).trans Nat.cast_two.symm⟩)
    (by decide +kernel) (by decide +kernel) (by decide +kernel) 1 le_rfl

end

end ParFlow.PatchySolid
