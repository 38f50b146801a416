import ParFlow.Geom.PatchTally
import ParFlow.Lib.PointLoop

/-! The points of `MakePatchySolid`: every corner of the solid is added once at the bottom and once at the top, by the first
column that has it, and later columns find it again. -/

namespace ParFlow.PatchySolid

open IntLoop ExceptLoop TriangleSurface FirstVisit
open ParFlow.Pfb (Databox)
open ParFlow.Topo (gridLoop mem_gridLoop IsCell coeffAt)

/-! ## Corners -/

def cornerOf (km : Fin 8) : Corner := (iOff km = 1, jOff km = 1, 3 < km)

/-- A corner of a column as a point of the solid. -/
def point (c : ℤ × ℤ) (km : Fin 8) : ℤ × ℤ × Bool := cornerPoint c (cornerOf km)

theorem point_eq (c : ℤ × ℤ) (km : Fin 8) : point c km = (c.1 + iOff km, c.2 + jOff km, decide (3 < km)) := by
  have hx : ∀ km, (((cornerOf km).1.toNat : ℕ) : ℤ) = iOff km := by decide
  have hy : ∀ km, (((cornerOf km).2.1.toNat : ℕ) : ℤ) = jOff km := by decide
  show (c.1 + _, c.2 + _, _) = _
  rw [hx, hy]
  rfl

theorem point_eq_iff {c c' : ℤ × ℤ} {km km' : Fin 8} : point c km = point c' km' ↔
    c.1 + iOff km = c'.1 + iOff km' ∧ c.2 + jOff km = c'.2 + jOff km' ∧ (3 < km ↔ 3 < km') := by
  rw [point_eq, point_eq, Prod.mk.injEq, Prod.mk.injEq, decide_eq_decide]

theorem iOff_cases : ∀ km, iOff km = 0 ∨ iOff km = 1 := by decide

theorem jOff_cases : ∀ km, jOff km = 0 ∨ jOff km = 1 := by decide

theorem point_injective (c : ℤ × ℤ) : Function.Injective (point c) := by
  have hinj : ∀ km km', iOff km = iOff km' ∧ jOff km = jOff km' ∧ (3 < km ↔ 3 < km') → km = km' := by decide
  intro km km' h
  obtain ⟨hx, hy, hz⟩ := point_eq_iff.mp h
  exact hinj km km' ⟨add_left_cancel hx, add_left_cancel hy, hz⟩

/-! ## The order of the columns -/

def Before (c c' : ℤ × ℤ) : Prop := c.2 < c'.2 ∨ c.2 = c'.2 ∧ c.1 < c'.1

theorem gridLoop_pairwise (nx ny : ℤ) : (gridLoop nx ny).Pairwise Before := by
  unfold gridLoop
  rw [List.pairwise_flatMap]
  constructor
  · exact fun j _ => List.pairwise_map.mpr ((upto_pairwise_lt 0 nx).imp fun h => Or.inr ⟨rfl, h⟩)
  · refine (upto_pairwise_lt 0 ny).imp fun {j j'} h c hc c' hc' => ?_
    obtain ⟨i, -, rfl⟩ := List.mem_map.mp hc
    obtain ⟨i', -, rfl⟩ := List.mem_map.mp hc'
    exact Or.inl h

section Columns

variable {K : Type} [Field K] [LinearOrder K] [FloorRing K] {checked : Bool} {msk top bot : Databox K}

/-- The columns in the order of both passes. -/
def columns (msk : Databox K) : List (ℤ × ℤ) := actives msk (gridLoop msk.nx msk.ny)

theorem mem_columns {c : ℤ × ℤ} : c ∈ columns msk ↔ IsCell msk c ∧ maskVal msk c = 1 := by
  unfold columns actives
  rw [List.mem_filter, mem_gridLoop, decide_eq_true_eq]

theorem columns_pairwise (msk : Databox K) : (columns msk).Pairwise Before := (gridLoop_pairwise _ _).filter _

/-- What comes earlier in the order has been visited. -/
theorem mem_of_before {pre post : List (ℤ × ℤ)} {c c' : ℤ × ℤ} (hl : columns msk = pre ++ c :: post) (hc' : c' ∈ columns msk) :
    Before c' c ↔ c' ∈ pre := by
  have hpairwise := columns_pairwise msk
  rw [hl, List.pairwise_append, List.pairwise_cons] at hpairwise
  obtain ⟨-, ⟨hpost, -⟩, hpre⟩ := hpairwise
  rw [hl, List.mem_append, List.mem_cons] at hc'
  constructor
  · intro hbefore
    rcases hc' with h | rfl | h
    · exact h
    · unfold Before at hbefore
      omega
    · have hafter := hpost c' h
      unfold Before at hbefore hafter
      omega
  · exact fun h => hpre c' h c List.mem_cons_self

/-- The values of a mask are integers. -/
def IsIntegral (msk : Databox K) : Prop := ∀ c, IsCell msk c → ∃ n : ℤ, coeffAt msk c.1 c.2 = n

section

variable [IsStrictOrderedRing K]

theorem coeffAt_eq_one_iff (hmask : IsIntegral msk) {c : ℤ × ℤ} (hc : IsCell msk c) :
    coeffAt msk c.1 c.2 = 1 ↔ maskVal msk c = 1 := by
  obtain ⟨n, hn⟩ := hmask c hc
  have hval : maskVal msk c = n := by
    unfold maskVal
    rw [hn, Int.ceil_intCast, Int.floor_intCast, ite_self]
  rw [hval, hn, Int.cast_eq_one]

/-- A corner is added unless an earlier column has it. -/
theorem addPnt_iff (hmask : IsIntegral msk) {c : ℤ × ℤ} (hc : IsCell msk c) (km : Fin 8) :
    AddPnt msk c km ↔ ∀ c' ∈ columns msk, Before c' c → ∀ km', point c' km' ≠ point c km := by
  have hW : ∀ km : Fin 8, (km = 0 ∨ km = 2 ∨ km = 4 ∨ km = 6) ↔ iOff km = 0 := by decide
  have hSW : ∀ km : Fin 8, (km = 0 ∨ km = 4) ↔ iOff km = 0 ∧ jOff km = 0 := by decide
  have hS : ∀ km : Fin 8, (km = 0 ∨ km = 1 ∨ km = 4 ∨ km = 5) ↔ jOff km = 0 := by decide
  have hSE : ∀ km : Fin 8, (km = 1 ∨ km = 5) ↔ iOff km = 1 ∧ jOff km = 0 := by decide
  have hfind : ∀ km : Fin 8, ∀ x ∈ [(0 : ℤ), 1], ∀ y ∈ [(0 : ℤ), 1], ∃ km', iOff km' = x ∧ jOff km' = y ∧ (3 < km' ↔ 3 < km) := by
    decide
  have hone : ∀ c', IsCell msk c' → (coeffAt msk c'.1 c'.2 = 1 ↔ c' ∈ columns msk) := fun c' hc' => by
    rw [coeffAt_eq_one_iff hmask hc', mem_columns, and_iff_right hc']
  unfold AddPnt
  rw [hW, hSW, hS, hSE]
  have hi := iOff_cases km
  have hj := jOff_cases km
  obtain ⟨⟨hx0, hx1⟩, hy0, hy1⟩ := hc
  constructor
  · rintro ⟨hw, hsw, hs, hse⟩ c' hc' hbefore km' heq
    obtain ⟨hx, hy, -⟩ := point_eq_iff.mp heq
    have hcell := (mem_columns.mp hc').1
    have hval := (hone c' hcell).mpr hc'
    obtain ⟨⟨hx0', hx1'⟩, hy0', hy1'⟩ := hcell
    have hi' := iOff_cases km'
    have hj' := jOff_cases km'
    obtain ⟨i', j'⟩ := c'
    dsimp only at hx hy hx0' hx1' hy0' hy1' hval
    unfold Before at hbefore
    dsimp only at hbefore
    have hwhere : (i' = c.1 - 1 ∧ j' = c.2) ∨ (i' = c.1 - 1 ∧ j' = c.2 - 1) ∨ (i' = c.1 ∧ j' = c.2 - 1) ∨
        (i' = c.1 + 1 ∧ j' = c.2 - 1) := by omega
    rcases hwhere with ⟨rfl, rfl⟩ | ⟨rfl, rfl⟩ | ⟨rfl, rfl⟩ | ⟨rfl, rfl⟩
    · exact hw ⟨by omega, hval, by omega⟩
    · exact hsw ⟨⟨by omega, by omega⟩, hval, by omega, by omega⟩
    · exact hs ⟨by omega, hval, by omega⟩
    · exact hse ⟨⟨by omega, by omega⟩, hval, by omega, by omega⟩
  · intro h
    have hno : ∀ c' : ℤ × ℤ, IsCell msk c' → coeffAt msk c'.1 c'.2 = 1 → Before c' c → ∀ x ∈ [(0 : ℤ), 1], ∀ y ∈ [(0 : ℤ), 1],
        c'.1 + x = c.1 + iOff km → c'.2 + y = c.2 + jOff km → False := by
      intro c' hcell hval hbefore x hx y hy hx' hy'
      obtain ⟨km', rfl, rfl, hz⟩ := hfind km x hx y hy
      exact h c' ((hone c' hcell).mp hval) hbefore km' (point_eq_iff.mpr ⟨hx', hy', hz⟩)
    have hjmem : jOff km ∈ [(0 : ℤ), 1] := by simpa using hj
    have himem : iOff km ∈ [(0 : ℤ), 1] := by simpa using hi
    refine ⟨?_, ?_, ?_, ?_⟩
    · rintro ⟨hpos, hval, hkm⟩
      exact hno (c.1 - 1, c.2) ⟨⟨Int.le_sub_one_of_lt hpos, by dsimp only; omega⟩, hy0, hy1⟩ hval (Or.inr ⟨rfl, Int.sub_one_lt_of_le le_rfl⟩)
        1 (by simp) (jOff km) hjmem (by dsimp only; omega) rfl
    · rintro ⟨⟨hposx, hposy⟩, hval, hkm, hkm'⟩
      exact hno (c.1 - 1, c.2 - 1) ⟨⟨Int.le_sub_one_of_lt hposx, by dsimp only; omega⟩, Int.le_sub_one_of_lt hposy, by dsimp only; omega⟩ hval
        (Or.inl (Int.sub_one_lt_of_le le_rfl)) 1 (by simp) 1 (by simp) (by dsimp only; omega) (by dsimp only; omega)
    · rintro ⟨hpos, hval, hkm⟩
      exact hno (c.1, c.2 - 1) ⟨⟨hx0, hx1⟩, Int.le_sub_one_of_lt hpos, by dsimp only; omega⟩ hval (Or.inl (Int.sub_one_lt_of_le le_rfl))
        (iOff km) himem 1 (by simp) rfl (by dsimp only; omega)
    · rintro ⟨⟨hposx, hposy⟩, hval, hkm, hkm'⟩
      exact hno (c.1 + 1, c.2 - 1) ⟨⟨by dsimp only; omega, by dsimp only; omega⟩, Int.le_sub_one_of_lt hposy, by dsimp only; omega⟩ hval
        (Or.inl (Int.sub_one_lt_of_le le_rfl)) 0 (by simp) 1 (by simp) (by dsimp only; omega) (by dsimp only; omega)

/-- The corners that a column adds. -/
def newCorners (msk : Databox K) (c : ℤ × ℤ) : List (ℤ × ℤ × Bool) := ((List.finRange 8).filter (AddPnt msk c ·)).map (point c)

def cornersOf (c : ℤ × ℤ) : List (ℤ × ℤ × Bool) := (List.finRange 8).map (point c)

omit [FloorRing K] [IsStrictOrderedRing K] in
theorem mem_newCorners {c : ℤ × ℤ} {p : ℤ × ℤ × Bool} : p ∈ newCorners msk c ↔ ∃ km, AddPnt msk c km ∧ point c km = p := by
  simp [newCorners]

theorem mem_cornersOf {c : ℤ × ℤ} {p : ℤ × ℤ × Bool} : p ∈ cornersOf c ↔ ∃ km, point c km = p := by simp [cornersOf]

theorem columns_adds (hmask : IsIntegral msk) : Adds cornersOf (newCorners msk) (columns msk) := by
  intro pre c post hl
  have hc : c ∈ columns msk := hl ▸ List.mem_append_right _ List.mem_cons_self
  have hcell := (mem_columns.mp hc).1
  refine ⟨((List.nodup_finRange 8).filter _).map (point_injective c), fun p => ?_⟩
  rw [mem_newCorners, mem_cornersOf]
  have hpre : ∀ km, AddPnt msk c km ↔ ∀ c' ∈ pre, point c km ∉ cornersOf c' := by
    intro km
    rw [addPnt_iff hmask hcell]
    constructor
    · intro h c' hc' hmem
      have hcol : c' ∈ columns msk := hl ▸ List.mem_append_left _ hc'
      obtain ⟨km', heq⟩ := mem_cornersOf.mp hmem
      exact h c' hcol ((mem_of_before hl hcol).mpr hc') km' heq
    · intro h c' hc' hbefore km' heq
      exact h c' ((mem_of_before hl hc').mp hbefore) (mem_cornersOf.mpr ⟨km', heq⟩)
  constructor
  · rintro ⟨km, hadd, rfl⟩
    exact ⟨⟨km, rfl⟩, (hpre km).mp hadd⟩
  · rintro ⟨⟨km, rfl⟩, hnew⟩
    exact ⟨km, (hpre km).mpr hnew, rfl⟩

/-- The corners of the solid, in the order of their points. -/
def cornerList (msk : Databox K) (cells : List (ℤ × ℤ)) : List (ℤ × ℤ × Bool) := cells.flatMap (newCorners msk)

omit [FloorRing K] [IsStrictOrderedRing K] in
/-- Of the two points above each other the lower one comes first. -/
theorem idxOf_lt {l : List (ℤ × ℤ)} (h : Adds cornersOf (newCorners msk) l) {c : ℤ × ℤ} (hc : c ∈ l) {km : Fin 8} {a b : ℤ}
    {z : Bool} (hp : point c km = (a, b, z)) : (a, b, true) ∈ cornerList msk l ∧
      (cornerList msk l).idxOf (a, b, false) < (cornerList msk l).idxOf (a, b, true) := by
  have hboth : ∀ (d : ℤ × ℤ) (z z' : Bool), (a, b, z) ∈ cornersOf d → (a, b, z') ∈ cornersOf d := by
    have hother : ∀ (km : Fin 8) (z : Bool), ∃ km', iOff km' = iOff km ∧ jOff km' = jOff km ∧ decide (3 < km') = z := by decide
    intro d z z' hmem
    obtain ⟨km, hkm⟩ := mem_cornersOf.mp hmem
    obtain ⟨km', hx, hy, hz⟩ := hother km z'
    rw [point_eq] at hkm
    obtain ⟨rfl, hyz⟩ := Prod.mk.inj hkm
    obtain ⟨rfl, -⟩ := Prod.mk.inj hyz
    exact mem_cornersOf.mpr ⟨km', by rw [point_eq, hx, hy, hz]⟩
  have hmem : (a, b, z) ∈ cornersOf c := mem_cornersOf.mpr ⟨km, hp⟩
  obtain ⟨c', hc', -, hnew⟩ := h.exists_new hc hmem
  obtain ⟨kb, hkb, hpb⟩ := mem_newCorners.mp (hnew (a, b, false) fun d _ => ⟨hboth d _ _, hboth d _ _⟩)
  obtain ⟨kt, hkt, hpt⟩ := mem_newCorners.mp (hnew (a, b, true) fun d _ => ⟨hboth d _ _, hboth d _ _⟩)
  have hlt : kb < kt := by
    rw [point_eq] at hpb hpt
    have hb : ¬ 3 < kb := of_decide_eq_false (Prod.mk.inj (Prod.mk.inj hpb).2).2
    have ht : 3 < kt := of_decide_eq_true (Prod.mk.inj (Prod.mk.inj hpt).2).2
    exact (not_lt.mp hb).trans_lt ht
  have hrange : ∀ k k' : Fin 8, k < k' → [k, k'].Sublist (List.finRange 8) := by decide
  have hsub : [(a, b, false), (a, b, true)].Sublist (cornerList msk l) := by
    have hboth : [kb, kt].filter (AddPnt msk c' ·) = [kb, kt] := by simp [hkb, hkt]
    have hnewSub := ((hrange kb kt hlt).filter (AddPnt msk c' ·)).map (point c')
    rw [hboth, List.map_cons, List.map_cons, List.map_nil, hpb, hpt] at hnewSub
    exact hnewSub.trans (List.sublist_flatten_of_mem (List.mem_map_of_mem hc'))
  obtain ⟨r, r', heq, hr, hr'⟩ := List.cons_sublist_iff.mp hsub
  have hr' := List.singleton_sublist.mp hr'
  have hnot : (a, b, true) ∉ r := fun hmem => by
    have hnodup : (cornerList msk l).Nodup := h.nodup
    rw [heq, List.nodup_append'] at hnodup
    exact hnodup.2.2 hmem hr'
  rw [heq, List.idxOf_append_of_mem hr, List.idxOf_append_of_notMem hnot]
  exact ⟨List.mem_append_right _ hr', (List.idxOf_lt_length_of_mem hr).trans_le (Nat.le_add_right _ _)⟩

end

/-! ## Searches -/

/-- The point with this number has these coordinates. -/
def At (points : List (K × K × K)) (xy : K × K) (m : ℤ) : Prop := ∃ p ∈ points[m.toNat]?, (p.1, p.2.1) = xy

omit [Field K] [FloorRing K] in
theorem searchBack_cases (points : List (K × K × K)) (xy : K × K) (m : ℤ) :
    (searchBack points xy m = min m 0 ∧ ∀ j, 1 ≤ j → j ≤ m → ¬ At points xy j) ∨
      ((1 ≤ searchBack points xy m ∧ searchBack points xy m ≤ m) ∧ At points xy (searchBack points xy m) ∧
        ∀ j, searchBack points xy m < j → j ≤ m → ¬ At points xy j) := by
  unfold searchBack At
  cases h : (upto 1 (m + 1)).reverse.find? fun m => ∃ p ∈ points[m.toNat]?, (p.1, p.2.1) = xy with
  | none =>
    refine Or.inl ⟨rfl, fun j h1 h2 => ?_⟩
    have hnot := List.find?_eq_none.mp h j (List.mem_reverse.mpr (mem_upto.mpr ⟨h1, Int.lt_add_one_iff.mpr h2⟩))
    exact fun hj => hnot (decide_eq_true hj)
  | some r =>
    have hmem := mem_upto.mp (List.mem_reverse.mp (List.mem_of_find?_eq_some h))
    have hat := List.find?_some h
    refine Or.inr ⟨⟨hmem.1, Int.lt_add_one_iff.mp hmem.2⟩, of_decide_eq_true hat, fun j h1 h2 hj => ?_⟩
    obtain ⟨r', hr', -, hle, -, -⟩ := find?_upto_reverse (p := fun m => ∃ p ∈ points[m.toNat]?, (p.1, p.2.1) = xy)
      ⟨hmem.1.trans h1.le, Int.lt_add_one_iff.mpr h2⟩ (decide_eq_true hj)
    rw [h] at hr'
    cases hr'
    exact absurd hle (not_le.mpr h1)

omit [Field K] [FloorRing K] in
/-- The search for one of two points above each other, when the upper one has the greater number. -/
theorem findPoint_spec {points : List (K × K × K)} {xy : K × K} {b t : ℤ} (km : Fin 8) (hb : 0 ≤ b) (hbt : b < t)
    (ht : t < points.length) (hat : At points xy t) :
    (0 ≤ findPoint points xy km ∧ findPoint points xy km < points.length) ∧
      ((∀ j : ℤ, 0 ≤ j → j < points.length → (At points xy j ↔ j = b ∨ j = t)) →
        findPoint points xy km = if 3 < km then t else b) := by
  unfold findPoint
  dsimp only
  generalize hm : searchBack points xy (points.length - 1) = m
  -- the first search ends at the upper point or behind it
  have hfirst : (t ≤ m ∧ m < points.length) ∧ At points xy m := by
    have hcases := searchBack_cases points xy (points.length - 1)
    rw [hm] at hcases
    rcases hcases with ⟨-, hnone⟩ | ⟨⟨h1, h2⟩, hatm, hnone⟩
    · exact absurd hat (hnone t (by omega) (by omega))
    · refine ⟨⟨not_lt.mp fun hlt => hnone t hlt (by omega) hat, by omega⟩, hatm⟩
  obtain ⟨⟨htm, hmlen⟩, hatm⟩ := hfirst
  rcases searchBack_cases points xy (m - 1) with ⟨hr, hnone⟩ | ⟨⟨h1, h2⟩, hatr, hnone⟩
  · rw [hr, min_eq_right (by omega)]
    constructor
    · split_ifs <;> omega
    · intro hall
      have hmt := (hall m (by omega) hmlen).mp hatm
      have hb0 : b = 0 := by
        by_contra hne
        exact hnone b (by omega) (by omega) ((hall b hb (by omega)).mpr (Or.inl rfl))
      split_ifs with h3 h4 h4
      · exact absurd h4 (not_lt.mpr h3)
      · exact hb0.symm
      · omega
      · exact absurd (not_le.mp h3) h4
  · constructor
    · split_ifs <;> omega
    · intro hall
      have hmt := (hall m (by omega) hmlen).mp hatm
      have hrt := (hall _ (by omega) (by omega)).mp hatr
      split_ifs with h3 h4 h4
      · exact absurd h4 (not_lt.mpr h3)
      · omega
      · omega
      · exact absurd (not_le.mp h3) h4

/-! ## The points of a column -/

/-- A number that stands for a corner: that of its point, if the columns have a width. -/
structure Names (msk : Databox K) (corners : List (ℤ × ℤ × Bool)) (n : ℤ) (p : ℤ × ℤ × Bool) : Prop where
  mem : p ∈ corners
  nonneg : 0 ≤ n
  lt : n < corners.length
  eq : msk.dx ≠ 0 → msk.dy ≠ 0 → n = corners.idxOf p

omit [LinearOrder K] [FloorRing K] in
theorem Names.append {corners : List (ℤ × ℤ × Bool)} {n : ℤ} {p : ℤ × ℤ × Bool} (h : Names msk corners n p)
    (corners' : List (ℤ × ℤ × Bool)) : Names msk (corners ++ corners') n p where
  mem := List.mem_append_left _ h.mem
  nonneg := h.nonneg
  lt := h.lt.trans_le (by rw [List.length_append]; push_cast; omega)
  eq hdx hdy := by rw [List.idxOf_append_of_mem h.mem, h.eq hdx hdy]

/-- A corner and its point. The elevation is computed at some column that has the corner. -/
def IsPoint (checked : Bool) (msk top bot : Databox K) (p : ℤ × ℤ × Bool) (q : K × K × K) : Prop :=
  (q.1, q.2.1) = pointXY msk (p.1, p.2.1) ∧
    ∃ c ∈ columns msk, ∃ km, point c km = p ∧ elevation checked msk top bot c km = .ok q.2.2

/-- The elevations are computed from coefficients of the grids. -/
def Readable (checked : Bool) (msk top bot : Databox K) : Prop :=
  ∀ c ∈ columns msk, ∀ km, ∃ z, elevation checked msk top bot c km = .ok z

theorem at_iff {corners : List (ℤ × ℤ × Bool)} {points : List (K × K × K)}
    (h : List.Forall₂ (IsPoint checked msk top bot) corners points) {xy : K × K} {n : ℕ} (hn : n < corners.length) :
    At points xy n ↔ pointXY msk (corners[n].1, corners[n].2.1) = xy := by
  have hn' : n < points.length := h.length_eq ▸ hn
  have hpoint := (List.forall₂_iff_get.mp h).2 n hn hn'
  unfold At
  rw [Int.toNat_natCast, List.getElem?_eq_getElem hn']
  constructor
  · rintro ⟨q, hq, rfl⟩
    cases hq
    exact hpoint.1.symm
  · intro heq
    exact ⟨_, rfl, hpoint.1.trans heq⟩

variable [IsStrictOrderedRing K]

omit [LinearOrder K] [FloorRing K] [IsStrictOrderedRing K] in
theorem pointXY_injective [CharZero K] (hdx : msk.dx ≠ 0) (hdy : msk.dy ≠ 0) : Function.Injective (pointXY msk) := by
  intro a b h
  obtain ⟨hx, hy⟩ := Prod.mk.inj h
  exact Prod.ext (Int.cast_injective (mul_right_cancel₀ hdx (add_left_cancel hx)))
    (Int.cast_injective (mul_right_cancel₀ hdy (add_left_cancel hy)))

omit [IsStrictOrderedRing K] in
/-- An old corner is found again. -/
theorem findPoint_names {l : List (ℤ × ℤ)} (h : Adds cornersOf (newCorners msk) l) {c c' : ℤ × ℤ} (hc' : c' ∈ l) {km : Fin 8}
    (hold : point c km ∈ cornersOf c') {points : List (K × K × K)} {corners : List (ℤ × ℤ × Bool)}
    (hnodup : (cornerList msk l ++ corners).Nodup)
    (hpoints : List.Forall₂ (IsPoint checked msk top bot) (cornerList msk l ++ corners) points) :
    Names msk (cornerList msk l ++ corners) (findPoint points (pointXY msk (c.1 + iOff km, c.2 + jOff km)) km) (point c km) := by
  obtain ⟨km', hkm'⟩ := mem_cornersOf.mp hold
  generalize ha : c.1 + iOff km = a
  generalize hb : c.2 + jOff km = b
  have hpoint : point c km = (a, b, decide (3 < km)) := by rw [point_eq, ha, hb]
  obtain ⟨hmem, hlt⟩ := idxOf_lt h hc' (hkm'.trans hpoint)
  rw [hpoint]
  generalize hl : cornerList msk l ++ corners = P at hnodup hpoints
  have hmemB : (a, b, false) ∈ cornerList msk l := List.idxOf_lt_length_iff.mp (hlt.trans_le List.idxOf_le_length)
  have hmemB' : (a, b, false) ∈ P := hl ▸ List.mem_append_left _ hmemB
  have hmemT' : (a, b, true) ∈ P := hl ▸ List.mem_append_left _ hmem
  have hlt' : P.idxOf (a, b, false) < P.idxOf (a, b, true) := by
    rw [← hl, List.idxOf_append_of_mem hmemB, List.idxOf_append_of_mem hmem]
    exact hlt
  have hT := List.idxOf_lt_length_of_mem hmemT'
  have hlen := hpoints.length_eq
  have hatT : At points (pointXY msk (a, b)) (P.idxOf (a, b, true)) := by
    rw [at_iff hpoints hT, List.getElem_idxOf]
  obtain ⟨⟨h0, h1⟩, heq⟩ := findPoint_spec km (Int.natCast_nonneg (P.idxOf (a, b, false))) (by exact_mod_cast hlt')
    (by rw [← hlen]; exact_mod_cast hT) hatT
  refine ⟨?_, h0, by rwa [hlen], fun hdx hdy => ?_⟩
  · cases decide (3 < km)
    · exact hmemB'
    · exact hmemT'
  · rw [heq fun j hj0 hj => ?_]
    · by_cases hkm : 3 < km
      · rw [if_pos hkm, decide_eq_true hkm]
      · rw [if_neg hkm, decide_eq_false hkm]
    · obtain ⟨n, rfl⟩ := Int.eq_ofNat_of_zero_le hj0
      have hn : n < P.length := by rw [hlen]; exact_mod_cast hj
      rw [at_iff hpoints hn, (pointXY_injective hdx hdy).eq_iff, Nat.cast_inj, Nat.cast_inj]
      constructor
      · intro hxy
        cases hz : P[n].2.2
        · refine Or.inl ?_
          rw [← hnodup.idxOf_getElem n hn]
          congr 1
          exact Prod.ext (Prod.mk.inj hxy).1 (Prod.ext (Prod.mk.inj hxy).2 hz)
        · refine Or.inr ?_
          rw [← hnodup.idxOf_getElem n hn]
          congr 1
          exact Prod.ext (Prod.mk.inj hxy).1 (Prod.ext (Prod.mk.inj hxy).2 hz)
      · rintro (rfl | rfl)
        · rw [List.getElem_idxOf]
        · rw [List.getElem_idxOf]

omit [LinearOrder K] [FloorRing K] [IsStrictOrderedRing K] in
/-- A new corner takes the next number. -/
theorem names_concat {corners : List (ℤ × ℤ × Bool)} {p : ℤ × ℤ × Bool} (hp : p ∉ corners) :
    Names msk (corners ++ [p]) corners.length p where
  mem := List.mem_append_right _ (List.mem_singleton_self p)
  nonneg := Int.natCast_nonneg _
  lt := by
    rw [List.length_append, List.length_singleton]
    push_cast
    omega
  eq _ _ := by rw [List.idxOf_append_of_notMem hp, List.idxOf_cons_self, Nat.add_zero]

omit [IsStrictOrderedRing K] in
theorem point_bounds {c : ℤ × ℤ} (hc : c ∈ columns msk) (km : Fin 8) :
    (0 ≤ (point c km).1 ∧ (point c km).1 < msk.nx + 1) ∧ 0 ≤ (point c km).2.1 ∧ (point c km).2.1 < msk.ny + 1 := by
  obtain ⟨⟨hx0, hx1⟩, hy0, hy1⟩ := (mem_columns.mp hc).1
  have hi := iOff_cases km
  have hj := jOff_cases km
  rw [point_eq]
  dsimp only
  omega

omit [IsStrictOrderedRing K] in
/-- The array of the points is long enough. -/
theorem length_le_capacity {corners : List (ℤ × ℤ × Bool)} (hnodup : corners.Nodup)
    (hmem : ∀ p ∈ corners, ∃ c ∈ columns msk, ∃ km, point c km = p) (hnx : 0 ≤ msk.nx) (hny : 0 ≤ msk.ny) :
    (corners.length : ℤ) ≤ 2 * ((msk.nx + 1) * (msk.ny + 1)) := by
  have hsub : corners.toFinset ⊆ Finset.Ico 0 (msk.nx + 1) ×ˢ Finset.Ico 0 (msk.ny + 1) ×ˢ Finset.univ := by
    intro p hp
    obtain ⟨c, hc, km, rfl⟩ := hmem p (List.mem_toFinset.mp hp)
    obtain ⟨hx, hy⟩ := point_bounds hc km
    exact Finset.mem_product.mpr ⟨Finset.mem_Ico.mpr hx, Finset.mem_product.mpr ⟨Finset.mem_Ico.mpr hy, Finset.mem_univ _⟩⟩
  have hcard := Finset.card_le_card hsub
  rw [List.toFinset_card_of_nodup hnodup, Finset.card_product, Finset.card_product, Int.card_Ico, Int.card_Ico, Finset.card_univ,
    Fintype.card_bool, sub_zero, sub_zero] at hcard
  have hcast : ((msk.nx + 1).toNat * ((msk.ny + 1).toNat * 2) : ℤ) = 2 * ((msk.nx + 1) * (msk.ny + 1)) := by
    rw [Int.toNat_of_nonneg (by omega), Int.toNat_of_nonneg (by omega)]
    ring
  rw [← hcast]
  exact_mod_cast hcard

/-- The corners after some rounds of the loop for a column. -/
def cornersAfter (msk : Databox K) (pre : List (ℤ × ℤ)) (c : ℤ × ℤ) (kms : List (Fin 8)) : List (ℤ × ℤ × Bool) :=
  cornerList msk pre ++ (kms.filter (AddPnt msk c ·)).map (point c)

/-- The points and the numbers after some rounds. -/
structure Added (checked : Bool) (msk top bot : Databox K) (pre : List (ℤ × ℤ)) (c : ℤ × ℤ) (kms : List (Fin 8))
    (s : List (K × K × K) × (Fin 8 → ℤ)) : Prop where
  points : List.Forall₂ (IsPoint checked msk top bot) (cornersAfter msk pre c kms) s.1
  names : ∀ km ∈ kms, Names msk (cornersAfter msk pre c kms) (s.2 km) (point c km)

theorem Added.step (hmask : IsIntegral msk) (hread : Readable checked msk top bot) {pre post : List (ℤ × ℤ)} {c : ℤ × ℤ}
    (hl : columns msk = pre ++ c :: post) {kms rest : List (Fin 8)} {km : Fin 8} (hkms : List.finRange 8 = kms ++ km :: rest)
    {s : List (K × K × K) × (Fin 8 → ℤ)} (h : Added checked msk top bot pre c kms s) :
    ∃ s', addPoint checked msk top bot c s km = .ok s' ∧ Added checked msk top bot pre c (kms ++ [km]) s' := by
  have hadds := columns_adds hmask
  have hc : c ∈ columns msk := hl ▸ List.mem_append_right _ List.mem_cons_self
  have hnotMem : km ∉ kms := by
    have hnodup := List.nodup_finRange 8
    rw [hkms, List.nodup_append'] at hnodup
    exact fun hmem => hnodup.2.2 hmem List.mem_cons_self
  have hnames : ∀ {P : List (ℤ × ℤ × Bool)} {n : ℤ}, (∀ km' ∈ kms, Names msk P (s.2 km') (point c km')) →
      Names msk P n (point c km) → ∀ km' ∈ kms ++ [km], Names msk P (Function.update s.2 km n km') (point c km') := by
    intro P n hold hnew km' hmem
    rcases List.mem_append.mp hmem with hmem | hmem
    · rw [Function.update_of_ne (ne_of_mem_of_not_mem hmem hnotMem)]
      exact hold km' hmem
    · rw [List.mem_singleton.mp hmem, Function.update_self]
      exact hnew
  have hnodup : (cornerList msk pre ++ newCorners msk c).Nodup := by
    have hadds' : Adds cornersOf (newCorners msk) (pre ++ [c]) :=
      Adds.of_append (by rwa [List.append_assoc, List.singleton_append, ← hl])
    have hall := hadds'.nodup
    rwa [List.flatMap_append, List.flatMap_singleton] at hall
  have hrest : newCorners msk c = (kms.filter (AddPnt msk c ·)).map (point c) ++
      ((km :: rest).filter (AddPnt msk c ·)).map (point c) := by
    unfold newCorners
    rw [hkms, List.filter_append, List.map_append]
  rw [hrest, ← List.append_assoc] at hnodup
  unfold addPoint
  dsimp only
  by_cases hadd : AddPnt msk c km
  · have hafter : cornersAfter msk pre c (kms ++ [km]) = cornersAfter msk pre c kms ++ [point c km] := by
      unfold cornersAfter
      rw [List.filter_append, List.map_append, List.append_assoc]
      simp [hadd]
    have hnew : (cornersAfter msk pre c kms ++ [point c km]).Nodup := by
      rw [List.filter_cons_of_pos (by simpa using hadd), List.map_cons] at hnodup
      exact hnodup.sublist ((List.Sublist.refl _).append (List.singleton_sublist.mpr List.mem_cons_self))
    have hwhere : ∀ p ∈ cornersAfter msk pre c kms ++ [point c km], ∃ c ∈ columns msk, ∃ km, point c km = p := by
      intro p hp
      rcases List.mem_append.mp hp with hp | hp
      · obtain ⟨n, hn, rfl⟩ := List.mem_iff_getElem.mp hp
        obtain ⟨-, c', hc', km', hkm', -⟩ := (List.forall₂_iff_get.mp h.points).2 n hn (h.points.length_eq ▸ hn)
        exact ⟨c', hc', km', hkm'⟩
      · exact ⟨c, hc, km, (List.mem_singleton.mp hp).symm⟩
    obtain ⟨⟨hx0, hx1⟩, hy0, hy1⟩ := (mem_columns.mp hc).1
    have hcapacity := length_le_capacity hnew hwhere (by omega) (by omega)
    rw [List.length_append, List.length_singleton, h.points.length_eq] at hcapacity
    push_cast at hcapacity
    obtain ⟨z, hz⟩ := hread c hc km
    rw [if_pos hadd, if_pos (by omega), bind_ok hz]
    refine ⟨_, rfl, ?_, ?_⟩
    · rw [hafter]
      refine List.rel_append h.points (.cons ⟨?_, c, hc, km, rfl, hz⟩ .nil)
      rw [point_eq]
    · rw [hafter, ← h.points.length_eq]
      exact hnames (fun km' hmem => (h.names km' hmem).append _)
        (names_concat fun hmem => (List.nodup_append'.mp hnew).2.2 hmem (List.mem_singleton_self _))
  · have hafter : cornersAfter msk pre c (kms ++ [km]) = cornersAfter msk pre c kms := by
      unfold cornersAfter
      rw [List.filter_append, List.map_append]
      simp [hadd]
    have hold : ∃ c' ∈ pre, point c km ∈ cornersOf c' := by
      by_contra hno
      push Not at hno
      obtain ⟨km', hkm', heq⟩ := mem_newCorners.mp (((hadds pre c post hl).2 (point c km)).mpr
        ⟨mem_cornersOf.mpr ⟨km, rfl⟩, hno⟩)
      exact hadd (point_injective c heq ▸ hkm')
    obtain ⟨c', hc', hcorner⟩ := hold
    rw [if_neg hadd]
    refine ⟨_, rfl, by rw [hafter]; exact h.points, ?_⟩
    rw [hafter]
    rw [hl] at hadds
    exact hnames h.names (findPoint_names hadds.of_append hc' hcorner (List.nodup_append'.mp hnodup).1 h.points)

/-- The loop over the corners of a column. -/
theorem addPoints_column (hmask : IsIntegral msk) (hread : Readable checked msk top bot) {pre post : List (ℤ × ℤ)} {c : ℤ × ℤ}
    (hl : columns msk = pre ++ c :: post) {points : List (K × K × K)}
    (hpoints : List.Forall₂ (IsPoint checked msk top bot) (cornerList msk pre) points) :
    ∃ s, (List.finRange 8).foldlM (addPoint checked msk top bot c) (points, fun _ => -1) = .ok s ∧
      List.Forall₂ (IsPoint checked msk top bot) (cornerList msk (pre ++ [c])) s.1 ∧
      ∀ km, Names msk (cornerList msk (pre ++ [c])) (s.2 km) (point c km) := by
  have hnext : cornerList msk (pre ++ [c]) = cornersAfter msk pre c (List.finRange 8) := by
    unfold cornerList cornersAfter
    rw [List.flatMap_append, List.flatMap_singleton]
    rfl
  have hstart : Added checked msk top bot pre c [] (points, fun _ => -1) := by
    refine ⟨?_, fun km hkm => absurd hkm List.not_mem_nil⟩
    unfold cornersAfter
    rwa [List.filter_nil, List.map_nil, List.append_nil]
  obtain ⟨s, hs, hadded⟩ := foldlM_inv (f := addPoint checked msk top bot c) (Added checked msk top bot pre c) hstart
    fun kms km rest s hkms h => h.step hmask hread hl hkms
  rw [hnext]
  exact ⟨s, hs, hadded.points, fun km => hadded.names km (List.mem_finRange km)⟩

end Columns

end ParFlow.PatchySolid
