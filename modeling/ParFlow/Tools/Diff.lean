import ParFlow.Lib.FirstGreatest
import ParFlow.Lib.IntLoop
import ParFlow.Tools.ToolDefs

/-! `SigDiff` and `MSigDiff` report the same cell and digits. The absolute difference that `SigDiff` prints is that of the
cell, which need not be the greatest one. -/

namespace ParFlow.Diff

open IntLoop FuelRun FirstGreatest
open scoped Numerals
open ParFlow.Pfb (Databox)

variable {K : Type} [Field K] [LinearOrder K]

/-! ## The specification -/

def valueAt (v : Databox K) (c : ℤ × ℤ × ℤ) : K := v.coeffs (v.coeff c.1 c.2.1 c.2.2)

section

variable (v1 v2 : Databox K) (m : ℤ) (absoluteZero : K)

def absDiff (c : ℤ × ℤ × ℤ) : K := |valueAt v1 c - valueAt v2 c|

def relDiff (c : ℤ × ℤ × ℤ) : K := absDiff v1 v2 c / max |valueAt v1 c| |valueAt v2 c|

/-- The elements differ in one of the first `m` digits, or in any for negative `m`. -/
def Differs (c : ℤ × ℤ × ℤ) : Prop :=
  absoluteZero < max |valueAt v1 c| |valueAt v2 c| ∧ (if 0 ≤ m then 1 / 2 * 10 ^ (-m) else 0) < relDiff v1 v2 c

instance : DecidablePred (Differs v1 v2 m absoluteZero) := fun _ => inferInstanceAs (Decidable (_ ∧ _))

/-- The cell has the greatest relative difference, and the digits are those that this difference leaves. -/
structure IsReport (d : DiffReport K) : Prop where
  mem : d.cell ∈ elements v1
  differs : Differs v1 v2 m absoluteZero d.cell
  greatest : ∀ c ∈ elements v1, Differs v1 v2 m absoluteZero c → relDiff v1 v2 c ≤ relDiff v1 v2 d.cell
  digits : IsGreatest {s : ℤ | 0 ≤ s ∧ (s = 0 ∨ relDiff v1 v2 d.cell ≤ 1 / 2 * 10 ^ (-s))} d.sigDigs

def HasMaxAdiff (d : DiffReport K) : Prop := IsGreatest {a | ∃ c ∈ elements v1, a = absDiff v1 v2 c} d.maxAdiff

/-- Both routines return and report a difference exactly when there is one: the same cell, with its digits and the greatest
absolute difference of all cells. -/
def DiffsAgree (sdiff sdiff' : K) : Prop := ∃ lines r r',
  Returns (sigDiff v1 v2 m absoluteZero sdiff) (lines, r) ∧ Returns (mSigDiff v1 v2 m absoluteZero sdiff') r' ∧
    (r.isSome ↔ ∃ c ∈ elements v1, Differs v1 v2 m absoluteZero c) ∧
    (r'.isSome ↔ ∃ c ∈ elements v1, Differs v1 v2 m absoluteZero c) ∧
    ∀ d ∈ r, ∀ d' ∈ r', d.cell = d'.cell ∧ (IsReport v1 v2 m absoluteZero d ∧ HasMaxAdiff v1 v2 d) ∧
      IsReport v1 v2 m absoluteZero d' ∧ HasMaxAdiff v1 v2 d'

/-- The first of the cells with the greatest relative difference, in the order of the loop. -/
def IsFirstCell : ℤ × ℤ × ℤ → Prop := IsFirstGreatest (Differs v1 v2 m absoluteZero) (relDiff v1 v2)
  (fun c d => cellPlace v1.nx v1.ny c < cellPlace v1.nx v1.ny d) (elements v1)

/-- What the loop has found in the first elements. -/
def found (l : List (ℤ × ℤ × ℤ)) : Option (ℤ × ℤ × ℤ) := firstGreatest (Differs v1 v2 m absoluteZero) (relDiff v1 v2) l

/-- What both loops know after the elements of a list. -/
structure Tracks (l : List (ℤ × ℤ × ℤ)) (s : DiffState K) : Prop where
  p : s.p = l.length
  maxSdiff : s.maxSdiff = (found v1 v2 m absoluteZero l).elim 0 (relDiff v1 v2)
  cell : s.cell = (found v1 v2 m absoluteZero l).getD (0, 0, 0)
  everywhere : s.mSigDigsEverywhere = (found v1 v2 m absoluteZero l).isNone

end

variable [IsStrictOrderedRing K] {v1 v2 : Databox K} {m : ℤ} {absoluteZero : K} {l : List (ℤ × ℤ × ℤ)} {c : ℤ × ℤ × ℤ}

/-! ## One element -/

omit [Field K] [IsStrictOrderedRing K] in
theorem cMax_eq (a b : K) : cMax a b = max a b := by
  unfold cMax
  split_ifs with h
  · exact (max_eq_left h.le).symm
  · exact (max_eq_right (not_lt.mp h)).symm

omit [LinearOrder K] [IsStrictOrderedRing K] in
theorem sigDigRhs_eq (m : ℤ) : (sigDigRhs m : K) = if 0 ≤ m then 1 / 2 * 10 ^ (-m) else 0 := by
  unfold sigDigRhs
  split_ifs with hm
  · rw [zpow_neg, ← Int.toNat_of_nonneg hm, zpow_natCast, Int.toNat_natCast, div_eq_mul_inv]
  · rfl

theorem Differs.pos (h : Differs v1 v2 m absoluteZero c) : 0 < relDiff v1 v2 c := by
  refine lt_of_le_of_lt ?_ h.2
  split_ifs
  · positivity
  · exact le_rfl

/-- The pointer stands on the element of the cell. -/
structure PointsTo (v1 v2 : Databox K) (p : ℤ) (c : ℤ × ℤ × ℤ) : Prop where
  first : v1.coeffs p = valueAt v1 c
  second : v2.coeffs p = valueAt v2 c

section Round

variable {s : DiffState K} {lines : List (DiffLine K)}

/-- The variable `sdiff` after a round. -/
def sdiffAfter (v1 v2 : Databox K) (absoluteZero : K) (s : DiffState K) (c : ℤ × ℤ × ℤ) : K :=
  if max |valueAt v1 c| |valueAt v2 c| > absoluteZero then relDiff v1 v2 c else s.sdiff

omit [IsStrictOrderedRing K] in
/-- The old value of `sdiff` is not used. -/
theorem test_iff : (max |valueAt v1 c| |valueAt v2 c| > absoluteZero ∧ sdiffAfter v1 v2 absoluteZero s c > sigDigRhs m) ↔
    Differs v1 v2 m absoluteZero c := by
  unfold Differs
  rw [sigDigRhs_eq]
  refine and_congr_right fun hmax => ?_
  rw [sdiffAfter, if_pos hmax]

omit [IsStrictOrderedRing K] in
theorem roundTest_iff : (max |valueAt v1 c| |valueAt v2 c| > absoluteZero ∧
    (if max |valueAt v1 c| |valueAt v2 c| > absoluteZero then
      |valueAt v1 c - valueAt v2 c| / max |valueAt v1 c| |valueAt v2 c| else s.sdiff) > sigDigRhs m) ↔
    Differs v1 v2 m absoluteZero c := test_iff

omit [IsStrictOrderedRing K] in
theorem sdiffAfter_eq (h : Differs v1 v2 m absoluteZero c) : sdiffAfter v1 v2 absoluteZero s c = relDiff v1 v2 c :=
  if_pos h.1

omit [IsStrictOrderedRing K] in
theorem sigDiffElement_eq (hp : PointsTo v1 v2 s.p c) : sigDiffElement v1 v2 m absoluteZero (s, lines) c =
    if Differs v1 v2 m absoluteZero c then
      ({ p := s.p + 1
         sdiff := relDiff v1 v2 c
         maxAdiff := if relDiff v1 v2 c > s.maxSdiff then absDiff v1 v2 c else s.maxAdiff
         maxSdiff := if relDiff v1 v2 c > s.maxSdiff then relDiff v1 v2 c else s.maxSdiff
         cell := if relDiff v1 v2 c > s.maxSdiff then c else s.cell
         mSigDigsEverywhere := false },
        if m ≥ 0 then lines ++ [⟨c, absDiff v1 v2 c, valueAt v1 c, valueAt v2 c⟩] else lines)
    else ({ s with p := s.p + 1, sdiff := sdiffAfter v1 v2 absoluteZero s c }, lines) := by
  unfold sigDiffElement
  simp only [hp.first, hp.second, cMax_eq]
  simp only [Bool.not_not, decide_eq_true_eq, roundTest_iff]
  by_cases h : Differs v1 v2 m absoluteZero c
  · rw [if_pos h, if_pos h]
    rw [show (if max |valueAt v1 c| |valueAt v2 c| > absoluteZero then
      |valueAt v1 c - valueAt v2 c| / max |valueAt v1 c| |valueAt v2 c| else s.sdiff) = relDiff v1 v2 c from if_pos h.1]
    by_cases hgt : relDiff v1 v2 c > s.maxSdiff
    · simp only [if_pos hgt]
      rfl
    · simp only [if_neg hgt]
      rfl
  · rw [if_neg h, if_neg h]
    rfl

omit [IsStrictOrderedRing K] in
theorem mSigDiffElement_eq (hp : PointsTo v1 v2 s.p c) : mSigDiffElement v1 v2 m absoluteZero s c =
    if Differs v1 v2 m absoluteZero c then
      { p := s.p + 1
        sdiff := relDiff v1 v2 c
        maxAdiff := if s.maxAdiff < absDiff v1 v2 c then absDiff v1 v2 c else s.maxAdiff
        maxSdiff := if relDiff v1 v2 c > s.maxSdiff then relDiff v1 v2 c else s.maxSdiff
        cell := if relDiff v1 v2 c > s.maxSdiff then c else s.cell
        mSigDigsEverywhere := false }
    else { s with p := s.p + 1, sdiff := sdiffAfter v1 v2 absoluteZero s c,
                  maxAdiff := if s.maxAdiff < absDiff v1 v2 c then absDiff v1 v2 c else s.maxAdiff } := by
  unfold mSigDiffElement
  simp only [hp.first, hp.second, cMax_eq]
  simp only [Bool.not_not, decide_eq_true_eq, roundTest_iff]
  by_cases h : Differs v1 v2 m absoluteZero c
  · rw [if_pos h, if_pos h]
    rw [show (if max |valueAt v1 c| |valueAt v2 c| > absoluteZero then
      |valueAt v1 c - valueAt v2 c| / max |valueAt v1 c| |valueAt v2 c| else s.sdiff) = relDiff v1 v2 c from if_pos h.1]
    by_cases hgt : relDiff v1 v2 c > s.maxSdiff
    · simp only [if_pos hgt]
      rfl
    · simp only [if_neg hgt]
      rfl
  · rw [if_neg h, if_neg h]
    rfl

end Round

/-! ## The loops -/

section Loop

omit [IsStrictOrderedRing K] in
theorem found_append (l : List (ℤ × ℤ × ℤ)) (c : ℤ × ℤ × ℤ) : found v1 v2 m absoluteZero (l ++ [c]) =
    step (Differs v1 v2 m absoluteZero) (relDiff v1 v2) (found v1 v2 m absoluteZero l) c := by
  unfold found firstGreatest
  rw [List.foldl_append]
  rfl

variable {s : DiffState K}

/-- A cell replaces the one found so far when its difference is above the running maximum. -/
theorem Tracks.gt_iff (h : Tracks v1 v2 m absoluteZero l s) (hc : Differs v1 v2 m absoluteZero c) :
    relDiff v1 v2 c > s.maxSdiff ↔ ∀ y ∈ found v1 v2 m absoluteZero l, relDiff v1 v2 y < relDiff v1 v2 c := by
  rw [h.maxSdiff]
  cases found v1 v2 m absoluteZero l with
  | none => exact iff_of_true hc.pos fun y hy => absurd hy (Option.not_mem_none y)
  | some b => simp

/-- Whatever a round does to the other variables, it keeps track of the cell found. -/
theorem Tracks.append {s' : DiffState K} (h : Tracks v1 v2 m absoluteZero l s) (hp : s'.p = s.p + 1)
    (hdiffers : Differs v1 v2 m absoluteZero c →
      s'.maxSdiff = (if relDiff v1 v2 c > s.maxSdiff then relDiff v1 v2 c else s.maxSdiff) ∧
      s'.cell = (if relDiff v1 v2 c > s.maxSdiff then c else s.cell) ∧ s'.mSigDigsEverywhere = false)
    (hsame : ¬ Differs v1 v2 m absoluteZero c →
      s'.maxSdiff = s.maxSdiff ∧ s'.cell = s.cell ∧ s'.mSigDigsEverywhere = s.mSigDigsEverywhere) :
    Tracks v1 v2 m absoluteZero (l ++ [c]) s' := by
  have hlength : s'.p = (l ++ [c]).length := by
    rw [hp, h.p, List.length_append]
    push_cast
    rfl
  by_cases hc : Differs v1 v2 m absoluteZero c
  · obtain ⟨hmax, hcell, heverywhere⟩ := hdiffers hc
    have hgt := h.gt_iff hc
    by_cases hbest : ∀ y ∈ found v1 v2 m absoluteZero l, relDiff v1 v2 y < relDiff v1 v2 c
    · have hfound : found v1 v2 m absoluteZero (l ++ [c]) = some c := by
        rw [found_append]
        exact if_pos ⟨hc, hbest⟩
      rw [if_pos (hgt.mpr hbest)] at hmax hcell
      exact ⟨hlength, by rw [hfound]; exact hmax, by rw [hfound]; exact hcell, by rw [hfound]; exact heverywhere⟩
    · have hfound : found v1 v2 m absoluteZero (l ++ [c]) = found v1 v2 m absoluteZero l := by
        rw [found_append]
        exact if_neg fun h' => hbest h'.2
      have hsome : (found v1 v2 m absoluteZero l).isNone = false := by
        cases hl : found v1 v2 m absoluteZero l with
        | none => exact absurd (fun y hy => absurd (hl ▸ hy) (Option.not_mem_none y)) hbest
        | some b => rfl
      rw [if_neg (mt hgt.mp hbest)] at hmax hcell
      exact ⟨hlength, by rw [hfound, hmax, h.maxSdiff], by rw [hfound, hcell, h.cell], by rw [hfound, hsome, heverywhere]⟩
  · obtain ⟨hmax, hcell, heverywhere⟩ := hsame hc
    have hfound : found v1 v2 m absoluteZero (l ++ [c]) = found v1 v2 m absoluteZero l := by
      rw [found_append]
      exact if_neg fun h' => hc h'.1
    exact ⟨hlength, by rw [hfound, hmax, h.maxSdiff], by rw [hfound, hcell, h.cell], by rw [hfound, heverywhere, h.everywhere]⟩

omit [IsStrictOrderedRing K] in
theorem tracks_start (sdiff : K) : Tracks v1 v2 m absoluteZero [] (startState sdiff) := ⟨rfl, rfl, rfl, rfl⟩

/-- The list holds the first elements, at whose end the pointer stands. -/
def IsStart (v : Databox K) (l : List (ℤ × ℤ × ℤ)) : Prop :=
  l.map (cellPlace v.nx v.ny) = (List.range l.length).map fun n : ℕ => 0 + (n : ℤ)

omit [Field K] [LinearOrder K] [IsStrictOrderedRing K] in
theorem elements_isStart (v : Databox K) : IsStart v (elements v) := nest_places v.nx v.ny v.nz

omit [Field K] [LinearOrder K] [IsStrictOrderedRing K] in
theorem IsStart.init {v : Databox K} (h : IsStart v (l ++ [c])) : IsStart v l ∧ cellPlace v.nx v.ny c = l.length := by
  unfold IsStart at h ⊢
  rw [List.map_append, List.length_append, List.length_singleton, List.range_succ, List.map_append] at h
  obtain ⟨hl, hc⟩ := List.append_inj h (by simp)
  exact ⟨hl, by simpa using hc⟩

omit [IsStrictOrderedRing K] in
theorem Tracks.pointsTo (h : Tracks v1 v2 m absoluteZero l s) (hnx : v2.nx = v1.nx) (hny : v2.ny = v1.ny)
    (hstart : IsStart v1 (l ++ [c])) : PointsTo v1 v2 s.p c := by
  have hplace := hstart.init.2
  rw [← h.p] at hplace
  refine ⟨congrArg v1.coeffs hplace.symm, congrArg v2.coeffs (hplace.symm.trans ?_)⟩
  unfold cellPlace Databox.coeff
  rw [hnx, hny]

/-- The line that `SigDiff` prints for a cell. -/
def lineOf (v1 v2 : Databox K) (c : ℤ × ℤ × ℤ) : DiffLine K := ⟨c, absDiff v1 v2 c, valueAt v1 c, valueAt v2 c⟩

theorem sigDiff_loop (hnx : v2.nx = v1.nx) (hny : v2.ny = v1.ny) (sdiff : K) (hl : IsStart v1 l) :
    ∃ s, l.foldl (sigDiffElement v1 v2 m absoluteZero) (startState sdiff, []) =
        (s, if m ≥ 0 then (l.filter fun c => Differs v1 v2 m absoluteZero c).map (lineOf v1 v2) else []) ∧
      Tracks v1 v2 m absoluteZero l s ∧ s.maxAdiff = (found v1 v2 m absoluteZero l).elim 0 (absDiff v1 v2) := by
  induction l using List.reverseRecOn with
  | nil => exact ⟨startState sdiff, by simp, tracks_start sdiff, rfl⟩
  | append_singleton l c ih =>
    obtain ⟨s, hrun, htracks, hadiff⟩ := ih hl.init.1
    rw [List.foldl_append, hrun, List.foldl_cons, List.foldl_nil, sigDiffElement_eq (htracks.pointsTo hnx hny hl),
      List.filter_append, List.map_append, found_append]
    by_cases hc : Differs v1 v2 m absoluteZero c
    · rw [if_pos hc]
      refine ⟨_, Prod.ext rfl ?_, htracks.append rfl (fun _ => ⟨rfl, rfl, rfl⟩) (absurd hc), ?_⟩
      · by_cases hm : m ≥ 0
        · simp [hm, hc, lineOf]
        · simp [hm]
      · have hgt := htracks.gt_iff hc
        unfold FirstGreatest.step
        split_ifs with h₁ h₂ h₂
        · rfl
        · exact absurd ⟨hc, hgt.mp h₁⟩ h₂
        · exact absurd (hgt.mpr h₂.2) h₁
        · exact hadiff
    · rw [if_neg hc]
      refine ⟨_, Prod.ext rfl ?_, htracks.append rfl (absurd · hc) fun _ => ⟨rfl, rfl, rfl⟩, ?_⟩
      · simp [hc]
      · unfold FirstGreatest.step
        rw [if_neg fun h => hc h.1]
        exact hadiff

theorem mSigDiff_loop (hnx : v2.nx = v1.nx) (hny : v2.ny = v1.ny) (sdiff : K) (hl : IsStart v1 l) :
    ∃ s, l.foldl (mSigDiffElement v1 v2 m absoluteZero) (startState sdiff) = s ∧ Tracks v1 v2 m absoluteZero l s ∧
      (∀ c ∈ l, absDiff v1 v2 c ≤ s.maxAdiff) ∧ (s.maxAdiff = 0 ∨ ∃ c ∈ l, s.maxAdiff = absDiff v1 v2 c) := by
  induction l using List.reverseRecOn with
  | nil => exact ⟨_, rfl, tracks_start sdiff, fun c hc => absurd hc List.not_mem_nil, Or.inl rfl⟩
  | append_singleton l c ih =>
    obtain ⟨s, hrun, htracks, hle, heq⟩ := ih hl.init.1
    have hmax : ∀ x, x = (if s.maxAdiff < absDiff v1 v2 c then absDiff v1 v2 c else s.maxAdiff) →
        (∀ d ∈ l ++ [c], absDiff v1 v2 d ≤ x) ∧ (x = 0 ∨ ∃ d ∈ l ++ [c], x = absDiff v1 v2 d) := by
      rintro x rfl
      split_ifs with hlt
      · refine ⟨fun d hd => ?_, Or.inr ⟨c, by simp, rfl⟩⟩
        rcases List.mem_append.mp hd with hd | hd
        · exact (hle d hd).trans hlt.le
        · rw [List.mem_singleton.mp hd]
      · refine ⟨fun d hd => ?_, heq.imp_right fun ⟨d, hd, hx⟩ => ⟨d, List.mem_append_left _ hd, hx⟩⟩
        rcases List.mem_append.mp hd with hd | hd
        · exact hle d hd
        · rw [List.mem_singleton.mp hd]
          exact not_lt.mp hlt
    rw [List.foldl_append, hrun, List.foldl_cons, List.foldl_nil, mSigDiffElement_eq (htracks.pointsTo hnx hny hl)]
    refine ⟨_, rfl, ?_, hmax _ ?_⟩
    · by_cases hc : Differs v1 v2 m absoluteZero c
      · rw [if_pos hc]
        exact htracks.append rfl (fun _ => ⟨rfl, rfl, rfl⟩) (absurd hc)
      · rw [if_neg hc]
        exact htracks.append rfl (absurd · hc) fun _ => ⟨rfl, rfl, rfl⟩
    · split_ifs <;> rfl

end Loop

/-! ## The digits -/

section Digits

variable [Archimedean K]

/-- The loop multiplies by ten as long as the difference leaves one more digit. -/
theorem countDigits_returns {d : K} (hd : 0 < d) (n : ℤ) : ∃ k : ℕ, Returns (fun fuel => countDigits fuel d n) (n + k) ∧
    (k = 0 ∨ d ≤ 1 / 2 / 10 ^ k) ∧ 1 / 2 / 10 ^ (k + 1) < d := by
  obtain ⟨N, hN⟩ : ∃ N : ℕ, 1 / 20 < d * 10 ^ N := by
    obtain ⟨N, hN⟩ := pow_unbounded_of_one_lt (1 / 20 / d) (show (1 : K) < 10 by norm_num)
    exact ⟨N, by rwa [div_lt_iff₀' hd] at hN⟩
  -- on the number of multiplications after which the loop must have ended
  induction N generalizing d n with
  | zero =>
    rw [pow_zero, mul_one] at hN
    refine ⟨0, returns_of_add 1 fun fuel => ?_, Or.inl rfl, by norm_num at hN ⊢; exact hN⟩
    rw [countDigits, if_neg (not_le.mpr hN), Nat.cast_zero, add_zero]
  | succ N ih =>
    by_cases hgo : d ≤ 1 / 20
    · obtain ⟨k, hk, hle, hlt⟩ := ih (d := d * 10) (by positivity) (n + 1) (by rwa [mul_assoc, ← pow_succ'])
      refine ⟨k + 1, returns_of_succ (g := fun fuel => countDigits fuel (d * 10) (n + 1)) ?_ fun fuel => ?_, Or.inr ?_, ?_⟩
      · rwa [Nat.cast_add, Nat.cast_one, show n + ((k : ℤ) + 1) = n + 1 + k by ring]
      · rw [countDigits, if_pos hgo]
      · rcases hle with rfl | hle
        · norm_num at hgo ⊢
          exact hgo
        · rw [pow_succ, ← div_div, le_div_iff₀ (by norm_num)]
          exact hle
      · rw [pow_succ, ← div_div, div_lt_iff₀ (by norm_num)]
        exact hlt
    · refine ⟨0, returns_of_add 1 fun fuel => ?_, Or.inl rfl, by norm_num at hgo ⊢; exact hgo⟩
      rw [countDigits, if_neg hgo, Nat.cast_zero, add_zero]

theorem countDigits_greatest {d : K} (hd : 0 < d) : ∃ sigDigs, Returns (fun fuel => countDigits fuel d 0) sigDigs ∧
    IsGreatest {s : ℤ | 0 ≤ s ∧ (s = 0 ∨ d ≤ 1 / 2 * 10 ^ (-s))} sigDigs := by
  obtain ⟨k, hk, hle, hlt⟩ := countDigits_returns hd 0
  rw [zero_add] at hk
  have hpow : ∀ n : ℕ, (1 / 2 * 10 ^ (-(n : ℤ)) : K) = 1 / 2 / 10 ^ n := fun n => by
    rw [zpow_neg, zpow_natCast, ← div_eq_mul_inv]
  refine ⟨k, hk, ⟨Int.natCast_nonneg k, ?_⟩, ?_⟩
  · rw [hpow, Nat.cast_eq_zero]
    exact hle
  · rintro s ⟨hs, hs'⟩
    by_contra hgt
    obtain ⟨n, rfl⟩ := Int.eq_ofNat_of_zero_le hs
    have hd' := hs'.resolve_left (by omega)
    rw [hpow] at hd'
    have hmono : (1 / 2 / 10 ^ n : K) ≤ 1 / 2 / 10 ^ (k + 1) :=
      div_le_div_of_nonneg_left (by norm_num) (by positivity) (pow_le_pow_right₀ (by norm_num) (by omega))
    exact absurd (hd'.trans hmono) (not_le.mpr hlt)

/-- The report names the cell found, and there is none when no cell was found. -/
theorem Tracks.report {s : DiffState K} (h : Tracks v1 v2 m absoluteZero (elements v1) s) :
    ∃ r, Returns (fun fuel => reportDiff s fuel) r ∧
      (r.isSome ↔ ∃ c ∈ elements v1, Differs v1 v2 m absoluteZero c) ∧
      ∀ d ∈ r, IsFirstCell v1 v2 m absoluteZero d.cell ∧ IsReport v1 v2 m absoluteZero d ∧ d.maxAdiff = s.maxAdiff := by
  unfold reportDiff
  rw [h.everywhere]
  have hsome : (firstGreatest (Differs v1 v2 m absoluteZero) (relDiff v1 v2) (elements v1)).isSome ↔ _ :=
    firstGreatest_isSome
  cases hfound : found v1 v2 m absoluteZero (elements v1) with
  | none =>
    unfold found at hfound
    rw [hfound] at hsome
    exact ⟨none, returns_const none, hsome, fun d hd => absurd hd (Option.not_mem_none d)⟩
  | some c =>
    have hfirst : IsFirstCell v1 v2 m absoluteZero c := firstGreatest_isFirst (nest_pairwise v1.nx v1.ny v1.nz) hfound
    have hmax : s.maxSdiff = relDiff v1 v2 c := by rw [h.maxSdiff, hfound]; rfl
    have hcell : s.cell = c := by rw [h.cell, hfound]; rfl
    obtain ⟨sigDigs, hreturns, hgreatest⟩ := countDigits_greatest hfirst.holds.pos
    rw [← hmax] at hreturns
    unfold found at hfound
    rw [hfound] at hsome
    refine ⟨some ⟨s.cell, sigDigs, s.maxAdiff⟩, (returns_bind_iff hreturns).mpr (returns_const _), hsome, fun d hd => ?_⟩
    cases hd
    rw [hcell]
    exact ⟨hfirst, ⟨hfirst.mem, hfirst.holds, hfirst.le, hgreatest⟩, rfl⟩

omit [IsStrictOrderedRing K] [Archimedean K] in
theorem IsFirstCell.unique {d : ℤ × ℤ × ℤ} (hc : IsFirstCell v1 v2 m absoluteZero c) (hd : IsFirstCell v1 v2 m absoluteZero d) :
    c = d := by
  have hfound : ∀ e, found v1 v2 m absoluteZero (elements v1) = some e ↔ _ := fun e => firstGreatest_eq_some_iff
    (nest_pairwise v1.nx v1.ny v1.nz) fun _ _ => lt_asymm
  exact Option.some.inj (((hfound c).mpr hc).symm.trans ((hfound d).mpr hd))

/-- `SigDiff` prints a line for each cell that differs, and the absolute difference that it prints in the end is that of
the cell of its report. -/
theorem sigDiff_returns (m : ℤ) (absoluteZero sdiff : K) (hnx : v2.nx = v1.nx) (hny : v2.ny = v1.ny) :
    ∃ r, Returns (sigDiff v1 v2 m absoluteZero sdiff)
        (if m ≥ 0 then ((elements v1).filter fun c => Differs v1 v2 m absoluteZero c).map (lineOf v1 v2) else [], r) ∧
      (r.isSome ↔ ∃ c ∈ elements v1, Differs v1 v2 m absoluteZero c) ∧
      ∀ d ∈ r, IsFirstCell v1 v2 m absoluteZero d.cell ∧ IsReport v1 v2 m absoluteZero d ∧
        d.maxAdiff = absDiff v1 v2 d.cell := by
  obtain ⟨s, hrun, htracks, hadiff⟩ := sigDiff_loop (m := m) hnx hny sdiff
    (elements_isStart v1)
  obtain ⟨r, hr, hsome, hreport⟩ := htracks.report
  refine ⟨r, ?_, hsome, fun d hd => ?_⟩
  · unfold sigDiff
    rw [hrun]
    exact (returns_bind_iff hr).mpr (returns_const _)
  · obtain ⟨hfirst, hrep, hmax⟩ := hreport d hd
    have hfound : found v1 v2 m absoluteZero (elements v1) = some d.cell :=
      (firstGreatest_eq_some_iff (nest_pairwise v1.nx v1.ny v1.nz) fun _ _ => lt_asymm).mpr hfirst
    refine ⟨hfirst, hrep, hmax.trans (hadiff.trans ?_)⟩
    rw [hfound]
    rfl

/-- `MSigDiff` gives the greatest one of all cells. -/
theorem mSigDiff_returns (m : ℤ) (absoluteZero sdiff : K) (hnx : v2.nx = v1.nx) (hny : v2.ny = v1.ny) :
    ∃ r, Returns (mSigDiff v1 v2 m absoluteZero sdiff) r ∧
      (r.isSome ↔ ∃ c ∈ elements v1, Differs v1 v2 m absoluteZero c) ∧
      ∀ d ∈ r, IsFirstCell v1 v2 m absoluteZero d.cell ∧ IsReport v1 v2 m absoluteZero d ∧ HasMaxAdiff v1 v2 d := by
  obtain ⟨s, hrun, htracks, hle, heq⟩ := mSigDiff_loop (m := m) hnx hny sdiff
    (elements_isStart v1)
  obtain ⟨r, hr, hsome, hreport⟩ := htracks.report
  refine ⟨r, ?_, hsome, fun d hd => ?_⟩
  · unfold mSigDiff
    rw [hrun]
    exact hr
  · obtain ⟨hfirst, hrep, hmax⟩ := hreport d hd
    refine ⟨hfirst, hrep, ?_⟩
    unfold HasMaxAdiff
    rw [hmax]
    refine ⟨?_, fun a ⟨c, hc, ha⟩ => ha ▸ hle c hc⟩
    rcases heq with hzero | ⟨c, hc, h⟩
    · exact ⟨d.cell, hfirst.mem, hzero.trans (le_antisymm (abs_nonneg _) (hzero ▸ hle d.cell hfirst.mem))⟩
    · exact ⟨c, hc, h⟩

/-- The routines agree when the first cell with the greatest relative difference has the greatest absolute difference too. -/
theorem diffsAgree_iff (v1 v2 : Databox K) (m : ℤ) (absoluteZero sdiff sdiff' : K) (hnx : v2.nx = v1.nx) (hny : v2.ny = v1.ny) :
    DiffsAgree v1 v2 m absoluteZero sdiff sdiff' ↔
      ∀ c, IsFirstCell v1 v2 m absoluteZero c → ∀ c' ∈ elements v1, absDiff v1 v2 c' ≤ absDiff v1 v2 c := by
  obtain ⟨r, hsig, hsome, hreport⟩ := sigDiff_returns m absoluteZero sdiff hnx hny
  obtain ⟨r', hmsig, hsome', hreport'⟩ := mSigDiff_returns m absoluteZero sdiff' hnx hny
  constructor
  · rintro ⟨lines', q, q', hq, hq', -, -, hagree⟩ c hc c' hc'
    obtain rfl : q = r := (Prod.mk.inj (hq.unique hsig)).2
    obtain rfl := hq'.unique hmsig
    obtain ⟨d, hd⟩ := Option.isSome_iff_exists.mp (hsome.mpr ⟨c, hc.mem, hc.holds⟩)
    obtain ⟨d', hd'⟩ := Option.isSome_iff_exists.mp (hsome'.mpr ⟨c, hc.mem, hc.holds⟩)
    obtain ⟨-, ⟨-, hmax⟩, -⟩ := hagree d hd d' hd'
    have hgreatest := hmax.2 ⟨c', hc', rfl⟩
    obtain ⟨hfirst, -, hown⟩ := hreport d hd
    rwa [hown, hfirst.unique hc] at hgreatest
  · intro h
    refine ⟨_, r, r', hsig, hmsig, hsome, hsome', fun d hd d' hd' => ?_⟩
    obtain ⟨hfirst, hrep, hown⟩ := hreport d hd
    obtain ⟨hfirst', hrep', hall⟩ := hreport' d' hd'
    refine ⟨hfirst.unique hfirst', ⟨hrep, ?_⟩, hrep', hall⟩
    unfold HasMaxAdiff
    rw [hown]
    exact ⟨⟨d.cell, hfirst.mem, rfl⟩, fun a ⟨c, hc, ha⟩ => ha ▸ h d.cell hfirst c hc⟩

end Digits

/-! ## Two cells -/

def twoCells (a b : ℚ) : Databox ℚ := ⟨2, 1, 1, 0, 0, 0, 1, 1, 1, fun p => if p = 0 then a else b⟩

theorem twoCells_iff : DiffsAgree (twoCells 1 100) (twoCells 2 110) 1 0 0 0 ↔
    ∀ c, IsFirstCell (twoCells 1 100) (twoCells 2 110) 1 0 c → ∀ c' ∈ elements (twoCells 1 100),
      absDiff (twoCells 1 100) (twoCells 2 110) c' ≤ absDiff (twoCells 1 100) (twoCells 2 110) c :=
  diffsAgree_iff (twoCells 1 100) (twoCells 2 110) 1 0 0 0 rfl rfl

/-- The first cell has the greater relative difference, 1 of 2, and the second one the greater absolute difference, 10. -/
theorem twoCells_not_agree : ¬ DiffsAgree (twoCells 1 100) (twoCells 2 110) 1 0 0 0 := by
  rintro ⟨lines, r, r', hr, -, hsome, hsome', hagree⟩
  obtain ⟨q, hq, -, hreport⟩ := @sigDiff_returns _ _ _ _ (twoCells 1 100) (twoCells 2 110) _ 1 0 0 rfl rfl
  obtain rfl : r = q := (Prod.mk.inj (hr.unique hq)).2
  have hdiffers : Differs (twoCells 1 100) (twoCells 2 110) 1 0 (0, 0, 0) := by decide +kernel
  have hmem : ∀ c, c ∈ elements (twoCells 1 100) ↔ c = (0, 0, 0) ∨ c = (1, 0, 0) := fun c => by
    rw [show elements (twoCells 1 100) = [(0, 0, 0), (1, 0, 0)] by decide +kernel]
    simp
  have hcell := (hmem (0, 0, 0)).mpr (Or.inl rfl)
  obtain ⟨d, hd⟩ := Option.isSome_iff_exists.mp (hsome.mpr ⟨_, hcell, hdiffers⟩)
  obtain ⟨d', hd'⟩ := Option.isSome_iff_exists.mp (hsome'.mpr ⟨_, hcell, hdiffers⟩)
  obtain ⟨-, hrep, hown⟩ := hreport d hd
  obtain ⟨-, ⟨-, hmax⟩, -⟩ := hagree d hd d' hd'
  have hgreatest := hmax.2 ⟨(1, 0, 0), (hmem _).mpr (Or.inr rfl), rfl⟩
  rw [hown] at hgreatest
  rcases (hmem d.cell).mp hrep.mem with h | h
  · rw [h] at hgreatest
    exact absurd hgreatest (by decide +kernel)
  · have hle := hrep.greatest (0, 0, 0) hcell hdiffers
    rw [h] at hle
    exact absurd hle (by decide +kernel)

end ParFlow.Diff
