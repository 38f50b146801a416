import ParFlow.Lib.Cover
import ParFlow.Grid.SubgridDefs

/-! What intersection and subtraction do to the cells of two subgrids of one
resolution. Reasoning is per axis: a cell lies in a subgrid exactly when each
coordinate lies in the interval of its axis. -/

namespace ParFlow

open Cover

theorem Axis.forall {p : Axis → Prop} : (∀ a, p a) ↔ p .x ∧ p .y ∧ p .z :=
  ⟨fun h => ⟨h .x, h .y, h .z⟩, fun h a => by cases a <;> simp [h]⟩

namespace Subregion

variable {s t u : Subgrid} {a b : Axis} {c : Cell}

theorem mem_cells_iff : c ∈ s.cells ↔
    (s.ix ≤ c.1 ∧ c.1 < s.ix + s.nx) ∧ (s.iy ≤ c.2.1 ∧ c.2.1 < s.iy + s.ny) ∧
      s.iz ≤ c.2.2 ∧ c.2.2 < s.iz + s.nz := by
  simp [cells]

theorem mem_cells_axis : c ∈ s.cells ↔ ∀ a, s.lo a ≤ a.coord c ∧ a.coord c < s.lo a + s.num a := by
  rw [mem_cells_iff, Axis.forall]
  rfl

theorem nonEmpty_axis : s.NonEmpty ↔ ∀ a, 0 < s.num a := by
  rw [Axis.forall]
  rfl

theorem sameRes_axis : s.SameRes t ↔ ∀ a, s.res a = t.res a := by
  rw [Axis.forall]
  rfl

theorem SameRes.symm (h : s.SameRes t) : t.SameRes s := ⟨h.1.symm, h.2.1.symm, h.2.2.symm⟩

theorem SameRes.trans (h : s.SameRes t) (h' : t.SameRes u) : s.SameRes u :=
  ⟨h.1.trans h'.1, h.2.1.trans h'.2.1, h.2.2.trans h'.2.2⟩

theorem SameRes.level_eq (h : s.SameRes t) : s.level = t.level := by
  rw [level, level, h.1, h.2.1, h.2.2]

/-- A non-empty subgrid has its lower corner. -/
theorem NonEmpty.cells_nonempty (h : s.NonEmpty) : s.cells.Nonempty := by
  obtain ⟨hx, hy, hz⟩ := h
  exact ⟨(s.ix, s.iy, s.iz), mem_cells_iff.mpr (by simp only; omega)⟩

theorem card_cells (h : s.NonEmpty) : (s.cells.card : ℤ) = s.nx * s.ny * s.nz := by
  obtain ⟨hx, hy, hz⟩ := h
  have hn := IntLoop.nest_nodup (IntLoop.upto_nodup s.iz (s.iz + s.nz))
    (IntLoop.upto_nodup s.iy (s.iy + s.ny)) (IntLoop.upto_nodup s.ix (s.ix + s.nx))
  rw [cells, List.toFinset_card_of_nodup hn, IntLoop.length_nest, IntLoop.length_upto,
    IntLoop.length_upto, IntLoop.length_upto]
  push_cast
  rw [Int.toNat_of_nonneg (by omega), Int.toNat_of_nonneg (by omega), Int.toNat_of_nonneg (by omega)]
  ring

/-! ### Assigning one axis -/

@[simp] theorem setAxis_lo_self (i n : ℤ) : (s.setAxis a i n).lo a = i := by cases a <;> rfl
@[simp] theorem setAxis_num_self (i n : ℤ) : (s.setAxis a i n).num a = n := by cases a <;> rfl

theorem setAxis_lo_of_ne (h : b ≠ a) (i n : ℤ) : (s.setAxis a i n).lo b = s.lo b := by
  cases a <;> cases b <;> first | rfl | exact absurd rfl h

theorem setAxis_num_of_ne (h : b ≠ a) (i n : ℤ) : (s.setAxis a i n).num b = s.num b := by
  cases a <;> cases b <;> first | rfl | exact absurd rfl h

@[simp] theorem setAxis_res (i n : ℤ) : (s.setAxis a i n).res b = s.res b := by
  cases a <;> cases b <;> rfl

@[simp] theorem setAxis_process (i n : ℤ) : (s.setAxis a i n).process = s.process := by
  cases a <;> rfl

theorem setAxis_sameRes (i n : ℤ) : (s.setAxis a i n).SameRes s :=
  sameRes_axis.mpr fun _ => setAxis_res i n

theorem setAxis_nonEmpty (h : s.NonEmpty) {i n : ℤ} (hn : 0 < n) : (s.setAxis a i n).NonEmpty := by
  refine nonEmpty_axis.mpr fun b => ?_
  by_cases hb : b = a
  · subst hb
    simpa using hn
  · rw [setAxis_num_of_ne hb]
    exact nonEmpty_axis.mp h b

/-- Shrinking one axis keeps the cells whose coordinate stays inside. -/
theorem mem_setAxis {i n : ℤ} (hi : s.lo a ≤ i) (hn : i + n ≤ s.lo a + s.num a) :
    c ∈ (s.setAxis a i n).cells ↔ c ∈ s.cells ∧ i ≤ a.coord c ∧ a.coord c < i + n := by
  rw [mem_cells_axis, mem_cells_axis]
  constructor
  · intro h
    have ha := h a
    rw [setAxis_lo_self, setAxis_num_self] at ha
    refine ⟨fun b => ?_, ha⟩
    by_cases hb : b = a
    · subst hb
      omega
    · simpa only [setAxis_lo_of_ne hb, setAxis_num_of_ne hb] using h b
  · rintro ⟨h, ha⟩ b
    by_cases hb : b = a
    · subst hb
      simpa using ha
    · rw [setAxis_lo_of_ne hb, setAxis_num_of_ne hb]
      exact h b

end Subregion

open Subregion

variable {s t u : Subgrid} {a : Axis} {c : Cell}

/-! ## Intersection -/

theorem extractSubgrid_sameRes (s : Subgrid) :
    extractSubgrid s.rx s.ry s.rz s =
      newSubgrid s.ix s.iy s.iz s.nx s.ny s.nz s.rx s.ry s.rz s.process := by
  simp [extractSubgrid, extractAxis, res, lo, num]

theorem intersectAxis_eq_some {old new : Subgrid} (h : intersectAxis old a new = some u) :
    (∀ c, c ∈ u.cells ↔ c ∈ new.cells ∧ old.lo a ≤ a.coord c ∧ a.coord c < old.lo a + old.num a) ∧
      u.SameRes new ∧ u.process = new.process ∧ 0 < u.num a ∧ ∀ b, b ≠ a → u.num b = new.num b := by
  unfold intersectAxis at h
  dsimp only at h
  split_ifs at h with hul
  rw [← Option.some.inj h]
  refine ⟨fun c => ?_, setAxis_sameRes _ _, setAxis_process _ _, ?_,
    fun b hb => setAxis_num_of_ne hb _ _⟩
  · rw [mem_setAxis (by omega) (by omega), mem_cells_axis]
    refine and_congr_right fun hc => ?_
    have ha := hc a
    omega
  · rw [setAxis_num_self]
    omega

theorem intersectAxis_eq_none {old new : Subgrid} (h : intersectAxis old a new = none)
    (hc : c ∈ new.cells) : ¬ (old.lo a ≤ a.coord c ∧ a.coord c < old.lo a + old.num a) := by
  unfold intersectAxis at h
  dsimp only at h
  split_ifs at h with hul
  have ha := mem_cells_axis.mp hc a
  omega

/-- The bounds along the three axes. -/
def intersectAxes (old new : Subgrid) : Option Subgrid :=
  (intersectAxis old .x new).bind fun n => (intersectAxis old .y n).bind fun n => intersectAxis old .z n

theorem intersectAxes_eq_some {old new : Subgrid} (hu : intersectAxes old new = some u) :
    u.cells = new.cells ∩ old.cells ∧ u.SameRes new ∧ u.process = new.process ∧ u.NonEmpty := by
  obtain ⟨n₁, h₁, hu⟩ := Option.bind_eq_some_iff.mp hu
  obtain ⟨n₂, h₂, h₃⟩ := Option.bind_eq_some_iff.mp hu
  obtain ⟨c₁, r₁, p₁, e₁, -⟩ := intersectAxis_eq_some h₁
  obtain ⟨c₂, r₂, p₂, e₂, o₂⟩ := intersectAxis_eq_some h₂
  obtain ⟨c₃, r₃, p₃, e₃, o₃⟩ := intersectAxis_eq_some h₃
  refine ⟨?_, r₃.trans (r₂.trans r₁), p₃.trans (p₂.trans p₁), nonEmpty_axis.mpr ?_⟩
  · ext c
    rw [c₃, c₂, c₁, Finset.mem_inter, mem_cells_axis (s := old), Axis.forall, and_assoc, and_assoc]
  · rw [Axis.forall, o₃ .x (by decide), o₃ .y (by decide), o₂ .x (by decide)]
    exact ⟨e₁, e₂, e₃⟩

theorem intersectAxes_eq_none {old new : Subgrid} (hu : intersectAxes old new = none) :
    Disjoint new.cells old.cells := by
  rw [Finset.disjoint_left]
  intro c hs ht
  rw [mem_cells_axis] at ht
  rw [intersectAxes, Option.bind_eq_none_iff] at hu
  -- each axis of a common cell rules out the jump to `empty`
  rcases h₁ : intersectAxis old .x new with _ | n₁
  · exact intersectAxis_eq_none h₁ hs (ht .x)
  have hc₁ : c ∈ n₁.cells := ((intersectAxis_eq_some h₁).1 c).mpr ⟨hs, ht .x⟩
  have hu₁ := hu n₁ h₁
  rw [Option.bind_eq_none_iff] at hu₁
  rcases h₂ : intersectAxis old .y n₁ with _ | n₂
  · exact intersectAxis_eq_none h₂ hc₁ (ht .y)
  have hc₂ : c ∈ n₂.cells := ((intersectAxis_eq_some h₂).1 c).mpr ⟨hc₁, ht .y⟩
  exact intersectAxis_eq_none (hu₁ n₂ h₂) hc₂ (ht .z)

/-- At one resolution the second argument bounds a copy of the first. -/
theorem intersectSubgrids_eq (h : s.SameRes t) : intersectSubgrids s t =
    intersectAxes t (newSubgrid s.ix s.iy s.iz s.nx s.ny s.nz s.rx s.ry s.rz s.process) := by
  have hl : ¬ t.level > s.level := by rw [h.level_eq]; exact lt_irrefl _
  rw [intersectSubgrids, if_neg hl, if_neg hl, ← h.1, ← h.2.1, ← h.2.2, extractSubgrid_sameRes]
  rfl

theorem intersectSubgrids_eq_some (h : s.SameRes t) (hu : intersectSubgrids s t = some u) :
    u.cells = s.cells ∩ t.cells ∧ u.SameRes s ∧ u.process = s.process ∧ u.NonEmpty := by
  rw [intersectSubgrids_eq h] at hu
  have hinter := intersectAxes_eq_some hu
  exact hinter

theorem intersectSubgrids_eq_none (h : s.SameRes t) (hu : intersectSubgrids s t = none) :
    Disjoint s.cells t.cells := by
  rw [intersectSubgrids_eq h] at hu
  have hdisj := intersectAxes_eq_none hu
  exact hdisj

theorem intersectSubgrids_isSome_iff (h : s.SameRes t) :
    (intersectSubgrids s t).isSome ↔ ∃ c, c ∈ s.cells ∧ c ∈ t.cells := by
  rcases hu : intersectSubgrids s t with _ | u
  · have hd := Finset.disjoint_left.mp (intersectSubgrids_eq_none h hu)
    simpa using fun x y z hc => hd hc
  · obtain ⟨hc, -, -, hne⟩ := intersectSubgrids_eq_some h hu
    obtain ⟨c, hcu⟩ := hne.cells_nonempty
    rw [hc, Finset.mem_inter] at hcu
    exact ⟨fun _ => ⟨c, hcu⟩, fun _ => rfl⟩

/-! ## Subtraction -/

/-- The pieces cut off a subgrid: they keep its resolution, its process and are not empty. -/
def PieceOf (s p : Subgrid) : Prop := p.SameRes s ∧ p.process = s.process ∧ (s.NonEmpty → p.NonEmpty)

theorem setAxis_pieceOf {i n : ℤ} (hn : 0 < n) : PieceOf s (s.setAxis a i n) :=
  ⟨setAxis_sameRes _ _, setAxis_process _ _, fun hs => setAxis_nonEmpty hs hn⟩

theorem PieceOf.trans {p q : Subgrid} (h : PieceOf s p) (h' : PieceOf p q) : PieceOf s q :=
  ⟨h'.1.trans h.1, h'.2.1.trans h.2.1, fun hs => h'.2.2 (h.2.2 hs)⟩

/-- A step that keeps the part `r` of `s` satisfying `p` and cuts the rest into the pieces `ps`. -/
structure IsCut (p : Cell → Prop) (s r : Subgrid) (ps : SubgridArray) : Prop where
  mem_rest : ∀ x, x ∈ r.cells ↔ x ∈ s.cells ∧ p x
  exact : Exact cells ps {x | x ∈ s.cells ∧ ¬ p x}
  rest : PieceOf s r
  pieces : ∀ q ∈ ps, PieceOf s q

theorem isCut_none {p : Cell → Prop} (h : ∀ x ∈ s.cells, p x) : IsCut p s s [] where
  mem_rest x := ⟨fun hx => ⟨hx, h x hx⟩, fun hx => hx.1⟩
  exact := (exact_nil cells).congr fun x => by simpa using h x
  rest := ⟨sameRes_axis.mpr fun _ => rfl, rfl, id⟩
  pieces := by simp

theorem IsCut.trans {p q : Cell → Prop} {r v : Subgrid} {ps qs : SubgridArray}
    (h : IsCut p s r ps) (h' : IsCut q r v qs) : IsCut (fun x => p x ∧ q x) s v (ps ++ qs) where
  mem_rest x := by rw [h'.mem_rest, h.mem_rest, and_assoc]
  exact := by
    refine (h.exact.append h'.exact ?_).congr fun x => ?_
    · rw [Set.disjoint_left]
      rintro x ⟨-, hp⟩ ⟨hx, -⟩
      exact hp ((h.mem_rest x).mp hx).2
    · simp only [Set.mem_union, Set.mem_ofPred_eq, h.mem_rest]
      tauto
  rest := h.rest.trans h'.rest
  pieces q' hq := by
    rcases List.mem_append.mp hq with hq | hq
    · exact h.pieces q' hq
    · exact h.rest.trans (h'.pieces q' hq)

theorem IsCut.congr {p q : Cell → Prop} {r : Subgrid} {ps : SubgridArray} (h : IsCut p s r ps)
    (hpq : ∀ x ∈ s.cells, p x ↔ q x) : IsCut q s r ps where
  mem_rest x := (h.mem_rest x).trans (and_congr_right fun hx => hpq x hx)
  exact := h.exact.congr fun x => and_congr_right fun hx => not_congr (hpq x hx)
  rest := h.rest
  pieces := h.pieces

theorem cutBelow_isCut (s : Subgrid) (acc : SubgridArray) {k : ℤ} (hk : k < s.lo a + s.num a) :
    ∃ r ps, cutBelow a k (s, acc) = (r, acc ++ ps) ∧ IsCut (fun x => k ≤ a.coord x) s r ps ∧
      (∀ b, b ≠ a → r.lo b = s.lo b ∧ r.num b = s.num b) ∧
      r.lo a = max (s.lo a) k ∧ r.lo a + r.num a = s.lo a + s.num a := by
  unfold cutBelow
  dsimp only
  split_ifs with h
  · refine ⟨_, [_], rfl, ⟨fun x => ?_, ?_, setAxis_pieceOf (by omega), ?_⟩,
      fun b hb => ⟨setAxis_lo_of_ne hb _ _, setAxis_num_of_ne hb _ _⟩, ?_, ?_⟩
    · rw [mem_setAxis (by omega) (by omega), mem_cells_axis]
      exact and_congr_right fun hx => by have := hx a; omega
    · refine (exact_singleton cells _).congr fun x => ?_
      rw [Finset.mem_coe, mem_setAxis (by omega) (by omega), Set.mem_ofPred_eq, mem_cells_axis]
      exact and_congr_right fun hx => by have := hx a; omega
    · intro q hq
      rw [List.mem_singleton.mp hq]
      exact setAxis_pieceOf (by omega)
    · rw [setAxis_lo_self]
      omega
    · rw [setAxis_lo_self, setAxis_num_self]
      omega
  · refine ⟨s, [], by rw [List.append_nil], isCut_none fun x hx => ?_, fun _ _ => ⟨rfl, rfl⟩, ?_, rfl⟩
    · have := mem_cells_axis.mp hx a
      omega
    · omega

theorem cutAbove_isCut (s : Subgrid) (acc : SubgridArray) {k : ℤ} (hk : s.lo a < k) :
    ∃ r ps, cutAbove a k (s, acc) = (r, acc ++ ps) ∧ IsCut (fun x => a.coord x < k) s r ps ∧
      ∀ b, b ≠ a → r.lo b = s.lo b ∧ r.num b = s.num b := by
  unfold cutAbove
  dsimp only
  split_ifs with h
  · refine ⟨_, [_], rfl, ⟨fun x => ?_, ?_, setAxis_pieceOf (by omega), ?_⟩,
      fun b hb => ⟨setAxis_lo_of_ne hb _ _, setAxis_num_of_ne hb _ _⟩⟩
    · rw [mem_setAxis (by omega) (by omega), mem_cells_axis]
      exact and_congr_right fun hx => by have := hx a; omega
    · refine (exact_singleton cells _).congr fun x => ?_
      rw [Finset.mem_coe, mem_setAxis (by omega) (by omega), Set.mem_ofPred_eq, mem_cells_axis]
      exact and_congr_right fun hx => by have := hx a; omega
    · intro q hq
      rw [List.mem_singleton.mp hq]
      exact setAxis_pieceOf (by omega)
  · refine ⟨s, [], by rw [List.append_nil], isCut_none fun x hx => ?_, fun _ _ => ⟨rfl, rfl⟩⟩
    have := mem_cells_axis.mp hx a
    omega

/-- What two cuts keep of an axis. When the cut points are not in order, only the first cuts. -/
def KeepsAxis (k : ℤ × ℤ) (x : ℤ) : Prop := k.1 ≤ x ∧ (x < k.2 ∨ k.2 ≤ k.1)

theorem keepsAxis_iff {k : ℤ × ℤ} (hk : k.1 < k.2) (x : ℤ) : KeepsAxis k x ↔ k.1 ≤ x ∧ x < k.2 := by
  unfold KeepsAxis
  rw [or_iff_left (not_le.mpr hk)]

theorem cutAxis_isCut (s : Subgrid) (acc : SubgridArray) {k : ℤ × ℤ} (hm : ¬ missesAxis s a k) :
    ∃ r ps, cutAxis a k (s, acc) = (r, acc ++ ps) ∧ IsCut (fun x => KeepsAxis k (a.coord x)) s r ps ∧
      ∀ b, b ≠ a → r.lo b = s.lo b ∧ r.num b = s.num b := by
  unfold missesAxis at hm
  obtain ⟨r₁, p₁, e₁, c₁, o₁, hlo, -⟩ := cutBelow_isCut (a := a) s acc (k := k.1) (by omega)
  rcases lt_or_ge k.1 k.2 with hk | hk
  · obtain ⟨r₂, p₂, e₂, c₂, o₂⟩ := cutAbove_isCut (a := a) r₁ (acc ++ p₁) (k := k.2) (by omega)
    refine ⟨r₂, p₁ ++ p₂, ?_, (c₁.trans c₂).congr fun x _ => (keepsAxis_iff hk _).symm, fun b hb => ?_⟩
    · rw [cutAxis, e₁, e₂, List.append_assoc]
    · rw [(o₂ b hb).1, (o₂ b hb).2]
      exact o₁ b hb
  · refine ⟨r₁, p₁, ?_, c₁.congr fun x _ => ?_, o₁⟩
    · rw [cutAxis, e₁, cutAbove, if_neg (by dsimp only; omega)]
    · exact (and_iff_left (Or.inr hk)).symm

/-- When no axis misses, the remainder inside all the cuts is what is dropped. -/
theorem subtractSubgrids_isCut (hm : ∀ a, ¬ missesAxis s a (cutPoints s t a)) :
    ∃ r, IsCut (fun x => ∀ a, KeepsAxis (cutPoints s t a) (a.coord x)) s r (subtractSubgrids s t) := by
  obtain ⟨r₁, p₁, e₁, c₁, o₁⟩ := cutAxis_isCut s [] (hm .x)
  have hy : ¬ missesAxis r₁ .y (cutPoints s t .y) := by
    rw [missesAxis, (o₁ .y (by decide)).1, (o₁ .y (by decide)).2]
    exact hm .y
  obtain ⟨r₂, p₂, e₂, c₂, o₂⟩ := cutAxis_isCut r₁ ([] ++ p₁) hy
  have hz : ¬ missesAxis r₂ .z (cutPoints s t .z) := by
    rw [missesAxis, (o₂ .z (by decide)).1, (o₂ .z (by decide)).2, (o₁ .z (by decide)).1,
      (o₁ .z (by decide)).2]
    exact hm .z
  obtain ⟨r₃, p₃, e₃, c₃, -⟩ := cutAxis_isCut r₂ ([] ++ p₁ ++ p₂) hz
  refine ⟨r₃, ?_⟩
  have hc := (c₁.trans (c₂.trans c₃)).congr
    (q := fun x => ∀ a, KeepsAxis (cutPoints s t a) (a.coord x)) fun x _ => by
      rw [Axis.forall]
  unfold subtractSubgrids
  dsimp only
  rw [if_neg (by rintro (h | h | h) <;> exact hm _ h), e₁, e₂, e₃]
  simpa only [List.nil_append, List.append_assoc] using hc

/-- Along an axis that misses, nothing is cut. -/
theorem subtractSubgrids_of_misses (hm : missesAxis s a (cutPoints s t a)) : subtractSubgrids s t = [s] := by
  unfold subtractSubgrids
  dsimp only
  rw [if_pos]
  cases a
  · exact Or.inl hm
  · exact Or.inr (Or.inl hm)
  · exact Or.inr (Or.inr hm)

theorem cutPoints_sameRes (h : s.SameRes t) (a : Axis) :
    cutPoints s t a = (t.lo a, t.lo a + t.num a) := by
  rw [cutPoints, if_neg]
  rw [not_not, sameRes_axis.mp h a, sub_self]

/-- `S_1 - S_2`: the pieces tile the cells of the first subgrid outside the second. -/
theorem subtractSubgrids_exact (h : s.SameRes t) (ht : t.NonEmpty) :
    Exact cells (subtractSubgrids s t) {x | x ∈ s.cells ∧ x ∉ t.cells} ∧
      ∀ p ∈ subtractSubgrids s t, PieceOf s p := by
  have hn := nonEmpty_axis.mp ht
  by_cases hm : ∀ a, ¬ missesAxis s a (cutPoints s t a)
  · obtain ⟨r, hc⟩ := subtractSubgrids_isCut hm
    have hin : ∀ x ∈ s.cells, (∀ a, KeepsAxis (cutPoints s t a) (a.coord x)) ↔ x ∈ t.cells := by
      intro x _
      rw [mem_cells_axis]
      refine forall_congr' fun a => ?_
      have ha := hn a
      rw [cutPoints_sameRes h, keepsAxis_iff (by dsimp only; omega)]
    exact ⟨(hc.congr hin).exact, (hc.congr hin).pieces⟩
  · push Not at hm
    obtain ⟨a, ha⟩ := hm
    rw [subtractSubgrids_of_misses ha]
    rw [cutPoints_sameRes h, missesAxis] at ha
    constructor
    · refine (exact_singleton cells s).congr fun x => ?_
      have hdisj : x ∈ s.cells → x ∉ t.cells := by
        intro hx hxt
        have hxa := mem_cells_axis.mp hx a
        have hxta := mem_cells_axis.mp hxt a
        dsimp only at ha
        omega
      exact ⟨fun hx => ⟨hx, hdisj hx⟩, fun hx => hx.1⟩
    · intro p hp
      rw [List.mem_singleton.mp hp]
      exact ⟨sameRes_axis.mpr fun _ => rfl, rfl, id⟩

/-! Whatever the second subgrid is, also empty, nothing outside the first is ever returned. -/

def PartOf (s p : Subgrid) : Prop := p.SameRes s ∧ p.process = s.process ∧ p.cells ⊆ s.cells

theorem PartOf.refl (s : Subgrid) : PartOf s s :=
  ⟨sameRes_axis.mpr fun _ => rfl, rfl, Finset.Subset.refl _⟩

theorem PartOf.trans {p q : Subgrid} (h : PartOf s p) (h' : PartOf p q) : PartOf s q :=
  ⟨h'.1.trans h.1, h'.2.1.trans h.2.1, h'.2.2.trans h.2.2⟩

theorem setAxis_partOf {i n : ℤ} (hi : s.lo a ≤ i) (hn : i + n ≤ s.lo a + s.num a) :
    PartOf s (s.setAxis a i n) :=
  ⟨setAxis_sameRes _ _, setAxis_process _ _, fun _ hc => ((mem_setAxis hi hn).mp hc).1⟩

/-- The remaining subgrid and the pieces cut so far are parts of `s`. -/
def PartsOf (s : Subgrid) (st : Subgrid × SubgridArray) : Prop :=
  PartOf s st.1 ∧ ∀ p ∈ st.2, PartOf s p

theorem PartsOf.cut {st : Subgrid × SubgridArray} (h : PartsOf s st) {r p : Subgrid}
    (hr : PartOf st.1 r) (hp : PartOf st.1 p) : PartsOf s (r, st.2 ++ [p]) := by
  refine ⟨h.1.trans hr, fun q hq => ?_⟩
  rcases List.mem_append.mp hq with hq | hq
  · exact h.2 q hq
  · rw [List.mem_singleton.mp hq]
    exact h.1.trans hp

theorem cutBelow_partsOf {st : Subgrid × SubgridArray} (h : PartsOf s st) (k : ℤ) :
    PartsOf s (cutBelow a k st) := by
  unfold cutBelow
  split_ifs with hk
  · exact h.cut (setAxis_partOf (by omega) (by omega)) (setAxis_partOf (by omega) (by omega))
  · exact h

theorem cutAbove_partsOf {st : Subgrid × SubgridArray} (h : PartsOf s st) (k : ℤ) :
    PartsOf s (cutAbove a k st) := by
  unfold cutAbove
  split_ifs with hk
  · exact h.cut (setAxis_partOf (by omega) (by omega)) (setAxis_partOf (by omega) (by omega))
  · exact h

theorem subtractSubgrids_partOf {p : Subgrid} (hp : p ∈ subtractSubgrids s t) : PartOf s p := by
  have hcut : ∀ a k st, PartsOf s st → PartsOf s (cutAxis a k st) :=
    fun a k st h => cutAbove_partsOf (cutBelow_partsOf h _) _
  unfold subtractSubgrids at hp
  dsimp only at hp
  split_ifs at hp with hm
  · rw [List.mem_singleton.mp hp]
    exact PartOf.refl s
  · exact (hcut _ _ _ (hcut _ _ _ (hcut _ _ _ ⟨PartOf.refl s, by simp⟩))).2 p hp

end ParFlow

/-! Sets of cells that are given axis by axis. -/

namespace ParFlow

namespace Axis

variable {s t : Axis → Set ℤ}

def cell (x : Axis → ℤ) : Cell := (x .x, x .y, x .z)

@[simp] theorem coord_cell (x : Axis → ℤ) (a : Axis) : a.coord (cell x) = x a := by cases a <;> rfl

theorem exists_cell_iff : (∃ c : Cell, ∀ a : Axis, a.coord c ∈ s a) ↔ ∀ a, (s a).Nonempty := by
  constructor
  · rintro ⟨c, hc⟩ a
    exact ⟨_, hc a⟩
  · intro h
    choose x hx using h
    refine ⟨cell x, fun a => ?_⟩
    rw [coord_cell]
    exact hx a

theorem box_subset_iff : (∀ c : Cell, (∀ a : Axis, a.coord c ∈ s a) → ∀ a : Axis, a.coord c ∈ t a) ↔
    (∀ a, s a ⊆ t a) ∨ ∃ a, s a = ∅ := by
  rw [← Set.univ_pi_subset_univ_pi_iff]
  constructor
  · intro h x hx a _
    have hc := h (cell x) fun b => by
      rw [coord_cell]
      exact hx b (Set.mem_univ b)
    simpa using hc a
  · intro h c hc a
    exact h (fun b _ => hc b) a (Set.mem_univ a)

/-- Two boxes have the same cells when their sides are equal, or when each has an empty side. -/
theorem box_eq_iff : (∀ c : Cell, (∀ a : Axis, a.coord c ∈ s a) ↔ ∀ a : Axis, a.coord c ∈ t a) ↔
    (∀ a, s a = t a) ∨ (∃ a, s a = ∅) ∧ ∃ a, t a = ∅ := by
  have hsplit : (∀ c : Cell, (∀ a : Axis, a.coord c ∈ s a) ↔ ∀ a : Axis, a.coord c ∈ t a) ↔
      ((∀ a, s a ⊆ t a) ∨ ∃ a, s a = ∅) ∧ ((∀ a, t a ⊆ s a) ∨ ∃ a, t a = ∅) := by
    rw [← box_subset_iff, ← box_subset_iff, ← forall_and]
    exact forall_congr' fun c => iff_def
  rw [hsplit]
  constructor
  · rintro ⟨hst | ⟨a, ha⟩, hts | ⟨b, hb⟩⟩
    · exact Or.inl fun a => (hst a).antisymm (hts a)
    · exact Or.inr ⟨⟨b, Set.subset_empty_iff.mp (hb ▸ hst b)⟩, b, hb⟩
    · exact Or.inr ⟨⟨a, ha⟩, a, Set.subset_empty_iff.mp (ha ▸ hts a)⟩
    · exact Or.inr ⟨⟨a, ha⟩, b, hb⟩
  · rintro (h | ⟨hs, ht⟩)
    · exact ⟨Or.inl fun a => (h a).subset, Or.inl fun a => (h a).superset⟩
    · exact ⟨Or.inr hs, Or.inr ht⟩

end Axis

end ParFlow
