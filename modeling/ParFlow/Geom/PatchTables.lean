import ParFlow.Geom.PatchTally
import ParFlow.Lib.Sorting
import ParFlow.Lib.PointLoop

/-! The tables of `MakePatchySolid`: the sorted user patches, and the entries of `AllPatches`, of which one more is used than
is declared. -/

namespace ParFlow.PatchySolid

open IntLoop ExceptLoop PointLoop TriangleSurface IntervalPerm
open ParFlow.Pfb (Databox)
open ParFlow.Topo (gridLoop)

/-! ## Sorting -/

theorem findMin_mem (lst : ℤ → ℤ) {j n : ℤ} (hj : j < n) : j ≤ (findMin lst j n).2 ∧ (findMin lst j n).2 < n := by
  have hrun : ∀ (l : List ℤ) (m : ℤ × ℤ), (∀ k ∈ l, j ≤ k ∧ k < n) → j ≤ m.2 ∧ m.2 < n →
      j ≤ (l.foldl (fun m k => if lst k < m.1 then (lst k, k) else m) m).2 ∧
        (l.foldl (fun m k => if lst k < m.1 then (lst k, k) else m) m).2 < n := by
    intro l
    induction l with
    | nil => exact fun m _ hm => hm
    | cons k l ih =>
      intro m hl hm
      rw [List.foldl_cons]
      refine ih _ (fun k' hk' => hl k' (List.mem_cons_of_mem _ hk')) ?_
      split_ifs
      · exact hl k List.mem_cons_self
      · exact hm
  refine hrun _ _ (fun k hk => ?_) ⟨le_rfl, hj⟩
  obtain ⟨h1, h2⟩ := mem_upto.mp hk
  exact ⟨by omega, h2⟩

/-- The rounds only change the order of the temporary arrays, and copy what has its place. -/
theorem rank_loop (n : ℤ) (patches counts patches₀ counts₀ : ℤ → ℤ) {m : ℤ} (h0 : 0 ≤ m) (hm : m ≤ n) :
    ∃ σ, Within 0 (n - 1) σ ∧
      ((upto 0 m).foldl (rankPatch n) ⟨patches₀, counts₀, patches, counts⟩).tempUPLst = patches ∘ σ ∧
      ((upto 0 m).foldl (rankPatch n) ⟨patches₀, counts₀, patches, counts⟩).tempUPCnt = counts ∘ σ ∧
      ∀ u, ((upto 0 m).foldl (rankPatch n) ⟨patches₀, counts₀, patches, counts⟩).usrPatches u =
          (if 0 ≤ u ∧ u < m then patches (σ u) else patches₀ u) ∧
        ((upto 0 m).foldl (rankPatch n) ⟨patches₀, counts₀, patches, counts⟩).usrPCounts u =
          if 0 ≤ u ∧ u < m then counts (σ u) else counts₀ u := by
  induction m, h0 using Int.leInduction with
  | base =>
    refine ⟨1, within_one 0 (n - 1), rfl, rfl, fun u => ?_⟩
    rw [if_neg (by omega), if_neg (by omega)]
    exact ⟨rfl, rfl⟩
  | succ m h0 ih =>
    obtain ⟨σ, hσ, hlst, hcnt, husr⟩ := ih (by omega)
    rw [upto_concat h0, List.foldl_append]
    generalize (upto 0 m).foldl (rankPatch n) ⟨patches₀, counts₀, patches, counts⟩ = s at hlst hcnt husr ⊢
    obtain ⟨hlo, hhi⟩ := findMin_mem s.tempUPLst (show m < n by omega)
    generalize hk : (findMin s.tempUPLst m n).2 = k at hlo hhi
    -- the entries before `m` stay in place
    have hfixed : ∀ u, 0 ≤ u → u < m → (σ * Equiv.swap k m) u = σ u := fun u _ hu => by
      rw [Equiv.Perm.mul_apply, Equiv.swap_apply_of_ne_of_ne (by omega) (by omega)]
    have hlast : (σ * Equiv.swap k m) m = σ k := by rw [Equiv.Perm.mul_apply, Equiv.swap_apply_right]
    refine ⟨σ * Equiv.swap k m, hσ.mul (within_swap ⟨by omega, by omega⟩ ⟨h0, by omega⟩), ?_, ?_, fun u => ?_⟩
    · show Function.update (Function.update s.tempUPLst _ _) m (s.tempUPLst _) = _
      rw [hk, hlst, ← comp_swap]
      rfl
    · show Function.update (Function.update s.tempUPCnt _ _) m (s.tempUPCnt _) = _
      rw [hk, hcnt, ← comp_swap]
      rfl
    · show Function.update s.usrPatches m (s.tempUPLst _) u = _ ∧ Function.update s.usrPCounts m (s.tempUPCnt _) u = _
      rw [hk, hlst, hcnt]
      by_cases hu : u = m
      · subst hu
        rw [Function.update_self, Function.update_self, if_pos ⟨h0, Int.lt_add_one_iff.mpr le_rfl⟩,
          if_pos ⟨h0, Int.lt_add_one_iff.mpr le_rfl⟩, hlast]
        exact ⟨rfl, rfl⟩
      · rw [Function.update_of_ne hu, Function.update_of_ne hu, (husr u).1, (husr u).2]
        by_cases hin : 0 ≤ u ∧ u < m
        · rw [if_pos hin, if_pos hin, if_pos ⟨hin.1, by omega⟩, if_pos ⟨hin.1, by omega⟩, hfixed u hin.1 hin.2]
          exact ⟨rfl, rfl⟩
        · rw [if_neg hin, if_neg hin, if_neg (by omega), if_neg (by omega)]
          exact ⟨rfl, rfl⟩

theorem fill_apply {a : ℤ → ℤ} {n v u : ℤ} (hu : ¬ (0 ≤ u ∧ u < n)) : fill a n v u = a u :=
  by
  have hnotMem : u ∉ (upto 0 n).map id := by rwa [List.map_id, mem_upto]
  exact foldl_update_of_notMem hnotMem a

theorem sortPatches_eq {t : Tally} (hnp : -1 ≤ t.npUsr) : ∃ σ, Within 0 t.npUsr σ ∧
    sortPatches t = { t with usrPatches := t.usrPatches ∘ σ, usrPCounts := t.usrPCounts ∘ σ } := by
  obtain ⟨σ, hσ, -, -, husr⟩ := rank_loop (t.npUsr + 1) t.usrPatches t.usrPCounts (fill t.usrPatches (t.npUsr + 1) (-99999))
    (fill t.usrPCounts (t.npUsr + 1) (-1)) (by omega) le_rfl
  rw [add_sub_cancel_right] at hσ
  refine ⟨σ, hσ, ?_⟩
  have hfixed : ∀ u, ¬ (0 ≤ u ∧ u < t.npUsr + 1) → σ u = u := fun u hu => hσ.fixed (by omega)
  have hpatches : (sortPatches t).usrPatches = t.usrPatches ∘ σ := funext fun u => (husr u).1.trans (by
    split_ifs with h
    · rfl
    · rw [fill_apply h, Function.comp_apply, hfixed u h])
  have hcounts : (sortPatches t).usrPCounts = t.usrPCounts ∘ σ := funext fun u => (husr u).2.trans (by
    split_ifs with h
    · rfl
    · rw [fill_apply h, Function.comp_apply, hfixed u h])
  rw [← hpatches, ← hcounts]
  rfl

/-- The order of the patches does not matter. -/
theorem Registers.comp {l : List ℤ} {npUsr : ℤ} {patches counts : ℤ → ℤ} (h : Registers l npUsr patches counts)
    {σ : Equiv.Perm ℤ} (hσ : Within 0 npUsr σ) : Registers l npUsr (patches ∘ σ) (counts ∘ σ) where
  low := h.low
  high := h.high
  inj u v hu hv heq := σ.injective (h.inj _ _ (hσ.mem hu.1 hu.2) (hσ.mem hv.1 hv.2) heq)
  mem v := by
    rw [h.mem]
    constructor
    · rintro ⟨u, hu, rfl⟩
      refine ⟨σ.symm u, ?_, by rw [Function.comp_apply, Equiv.apply_symm_apply]⟩
      by_contra hout
      have hfix : σ (σ.symm u) = σ.symm u := hσ.fixed (by unfold IsUser at hout; omega)
      rw [Equiv.apply_symm_apply] at hfix
      exact hout (hfix ▸ hu)
    · rintro ⟨u, hu, rfl⟩
      exact ⟨σ u, hσ.mem hu.1 hu.2, rfl⟩
  blank u hlt hu := by
    rw [Function.comp_apply, hσ.fixed (Or.inr hlt)]
    exact h.blank u hlt hu
  le u hu := h.le _ (hσ.mem hu.1 hu.2)
  nonneg u := h.nonneg _
  sum := by
    have hwide : Within 0 (npTot - 1) σ := hσ.mono le_rfl (by have := h.high; omega)
    have hperm : ((upto 0 npTot).map σ).Perm (upto 0 npTot) := by
      refine (List.subperm_of_subset ((upto_nodup _ _).map σ.injective) fun u hu => ?_).perm_of_length_le
        (by rw [List.length_map])
      obtain ⟨w, hw, rfl⟩ := List.mem_map.mp hu
      obtain ⟨h1, h2⟩ := mem_upto.mp hw
      have hmem := hwide.mem h1 (by omega)
      rw [mem_upto]
      omega
    rw [← List.map_map, (hperm.map counts).sum_eq, h.sum]
  fits := h.fits

section

variable {K : Type} [Field K] [LinearOrder K] [FloorRing K] {msk : Databox K} {cells : List (ℤ × ℤ)} {t : Tally}

theorem Tallied.sort (h : Tallied msk cells t) : Tallied msk cells (sortPatches t) := by
  obtain ⟨σ, hσ, heq⟩ := sortPatches_eq h.users.low
  rw [heq]
  exact ⟨h.zeros, h.defs, h.users.comp hσ⟩

end

/-! ## The entries of the patches -/

section

variable (t : Tally)

def patchSize (i : ℤ) : ℤ := if i < 6 then t.defPCounts i else t.usrPCounts (i - 6)

def patchValue (i : ℤ) : ℤ := if i < 6 then defPatches i else t.usrPatches (i - 6)

/-- The faces of the patches before. -/
def facesBefore (i : ℤ) : ℤ := ((upto 0 i).map (patchSize t)).sum

def patchInfo (i : ℤ) : PatchInfo :=
  if patchSize t i > 0 then
    ⟨-1, patchValue t i, patchSize t i, facesBefore t i, facesBefore t i + patchSize t i - 1, fun _ => 0⟩
  else ⟨-1, patchValue t i, 0, -1, -1, fun _ => 0⟩

/-- The table after its first `m` entries. -/
structure IsTable (m : ℤ) (s : PatchTable) : Prop where
  entry : ∀ i, 0 ≤ i → i < m → s.allPatches i = patchInfo t i
  np : s.np = facesBefore t m
  nonBlanks : s.nonBlanks = ((upto 0 m).countP fun i => patchSize t i > 0)

variable {t} {s : PatchTable} {m len : ℤ}

theorem facesBefore_succ (hm : 0 ≤ m) : facesBefore t (m + 1) = facesBefore t m + patchSize t m := by
  unfold facesBefore
  rw [upto_concat hm, List.map_append, List.sum_append, List.map_singleton, List.sum_singleton]

theorem IsTable.update (h : IsTable t m s) {np nonBlanks : ℤ} (hnp : np = facesBefore t (m + 1))
    (hnonBlanks : nonBlanks = ((upto 0 (m + 1)).countP fun i => patchSize t i > 0)) :
    IsTable t (m + 1) ⟨Function.update s.allPatches m (patchInfo t m), np, nonBlanks⟩ where
  entry i h0 hi := by
    rcases eq_or_ne i m with rfl | hne
    · exact Function.update_self _ _ _
    · exact (Function.update_of_ne hne _ _).trans (h.entry i h0 (by omega))
  np := hnp
  nonBlanks := hnonBlanks

theorem countP_succ (hm : 0 ≤ m) : (((upto 0 (m + 1)).countP fun i => patchSize t i > 0 : ℕ) : ℤ) =
    ((upto 0 m).countP fun i => patchSize t i > 0) + if patchSize t m > 0 then 1 else 0 := by
  rw [upto_concat hm, List.countP_append, List.countP_singleton]
  simp only [decide_eq_true_eq]
  push_cast
  rfl

theorem IsTable.activate (h : IsTable t m s) (hm : 0 ≤ m) (hsize : patchSize t m > 0) :
    IsTable t (m + 1) (s.activate m (patchValue t m) (patchSize t m)) := by
  have hentry : patchInfo t m = ⟨-1, patchValue t m, patchSize t m, s.np, s.np + patchSize t m - 1, fun _ => 0⟩ := by
    rw [patchInfo, if_pos hsize, h.np]
  show IsTable t (m + 1) ⟨Function.update s.allPatches m ⟨-1, patchValue t m, patchSize t m, s.np, s.np + patchSize t m - 1, fun _ => 0⟩,
    s.np + patchSize t m - 1 + 1, s.nonBlanks + 1⟩
  rw [← hentry]
  refine h.update ?_ ?_
  · rw [facesBefore_succ hm, h.np]
    ring
  · rw [countP_succ hm, if_pos hsize, h.nonBlanks]

theorem putDefault_cases (h : IsTable t m s) (hm : 0 ≤ m) (hm' : m < 6) (hdefs : ∀ k, 0 ≤ t.defPCounts k) :
    (∃ s', putDefault len t s m = .ok s' ∧ m < len ∧ IsTable t (m + 1) s') ∨
      ∃ e, putDefault len t s m = .error e ∧ e = .bounds ∧ len ≤ m := by
  have hsize : patchSize t m = t.defPCounts m := if_pos hm'
  have hvalue : patchValue t m = defPatches m := if_pos hm'
  unfold putDefault
  rw [← hsize, ← hvalue]
  by_cases hlen : m < len
  · rw [if_pos hlen]
    refine Or.inl ?_
    by_cases hpos : patchSize t m > 0
    · rw [if_pos hpos]
      exact ⟨_, rfl, hlen, h.activate hm hpos⟩
    · rw [if_neg hpos]
      refine ⟨_, rfl, hlen, ?_⟩
      have hzero : patchSize t m = 0 := le_antisymm (not_lt.mp hpos) (hsize ▸ hdefs m)
      have hentry : patchInfo t m = ⟨-1, patchValue t m, 0, -1, -1, fun _ => 0⟩ := if_neg hpos
      rw [← hentry]
      refine h.update ?_ ?_
      · rw [facesBefore_succ hm, hzero, add_zero]
        exact h.np
      · rw [countP_succ hm, if_neg hpos, add_zero]
        exact h.nonBlanks
  · rw [if_neg hlen]
    exact Or.inr ⟨_, rfl, rfl, not_lt.mp hlen⟩

theorem putUser_cases (h : IsTable t m s) (hm : 6 ≤ m) (hpos : 0 < t.usrPCounts (m - 6)) :
    (∃ s', putUser len t s m = .ok s' ∧ m < len ∧ IsTable t (m + 1) s') ∨
      ∃ e, putUser len t s m = .error e ∧ e = .bounds ∧ len ≤ m := by
  have hsize : patchSize t m = t.usrPCounts (m - 6) := if_neg hm.not_gt
  have hvalue : patchValue t m = t.usrPatches (m - 6) := if_neg hm.not_gt
  unfold putUser
  rw [if_pos hpos, ← hsize, ← hvalue]
  by_cases hlen : m < len
  · rw [if_pos hlen]
    exact Or.inl ⟨_, rfl, hlen, h.activate (by omega) (hsize ▸ hpos)⟩
  · rw [if_neg hlen]
    exact Or.inr ⟨_, rfl, rfl, not_lt.mp hlen⟩

/-- The table is complete if it is long enough, and else it is left. -/
theorem buildTable_cases {l : List ℤ} (h : t.Registers l) (hdefs : ∀ k, 0 ≤ t.defPCounts k) (blank : ℤ → PatchInfo) :
    (∃ s, buildTable len t blank = .ok s ∧ 6 + t.npUsr + 1 ≤ len ∧ IsTable t (6 + t.npUsr + 1) s) ∨
      ∃ e, buildTable len t blank = .error e ∧ e = .bounds ∧ len < 6 + t.npUsr + 1 := by
  have hlow := h.low
  unfold buildTable
  have hstart : IsTable t 0 ⟨blank, 0, 0⟩ := ⟨fun i h1 h2 => absurd (h1.trans_lt h2) (lt_irrefl 0), rfl, rfl⟩
  have hdefault : (∃ s, (upto 0 6).foldlM (putDefault len t) ⟨blank, 0, 0⟩ = .ok s ∧
      ((0 : ℤ) < 6 → 6 ≤ len) ∧ IsTable t 6 s) ∨
      ∃ e, (upto 0 6).foldlM (putDefault len t) ⟨blank, 0, 0⟩ = .error e ∧ e = .bounds ∧ len < 6 := by
    refine foldlM_upto_or (fun m s => (0 < m → m ≤ len) ∧ IsTable t m s) (show (0 : ℤ) ≤ 6 by decide)
      ⟨fun h => absurd h (lt_irrefl 0), hstart⟩ fun i h0 h6 s hs => ?_
    have hround : (∃ s', putDefault len t s i = .ok s' ∧ _) ∨ _ := putDefault_cases hs.2 h0 h6 hdefs
    rcases hround with ⟨s', hs', hlt, htable⟩ | ⟨e, he, hb, hle⟩
    · exact Or.inl ⟨s', hs', fun _ => hlt, htable⟩
    · exact Or.inr ⟨e, he, hb, hle.trans_lt h6⟩
  rcases hdefault with ⟨s, hs, hlen, htable⟩ | ⟨e, he, hb, hlt⟩
  · rw [bind_ok hs]
    refine foldlM_upto_or (fun m s => m ≤ len ∧ IsTable t m s) (show 6 ≤ 6 + t.npUsr + 1 by omega)
      ⟨hlen (by decide), htable⟩ fun i h6 hi s hs => ?_
    have hpos : 0 < t.usrPCounts (i - 6) := h.count_pos ⟨by omega, by omega⟩
    have hround : (∃ s', putUser len t s i = .ok s' ∧ _) ∨ _ := putUser_cases hs.2 h6 hpos
    rcases hround with ⟨s', hs', hlt, htable⟩ | ⟨e, he, hb, hle⟩
    · exact Or.inl ⟨s', hs', hlt, htable⟩
    · exact Or.inr ⟨e, he, hb, hle.trans_lt hi⟩
  · rw [he]
    exact Or.inr ⟨e, rfl, hb, by omega⟩

theorem buildValues_eq (hlow : -1 ≤ t.npUsr) (hlen : 6 + t.npUsr + 1 ≤ len) (allPatches : ℤ → PatchInfo) (blank : ℤ → ℤ) :
    ∃ patchValues, buildValues len t allPatches blank = .ok patchValues ∧
      ∀ i, 0 ≤ i → i < 6 + t.npUsr + 1 → patchValues i = (allPatches i).value := by
  refine (foldlM_upto_or
    (fun m (patchValues : ℤ → ℤ) => ∀ i, 0 ≤ i → i < m → patchValues i = (allPatches i).value)
    (show 0 ≤ 6 + t.npUsr + 1 by omega) (fun i h1 h2 => absurd (h1.trans_lt h2) (lt_irrefl 0)) ?_).resolve_right
    fun ⟨_, _, h⟩ => h
  intro i h0 hi patchValues hvalues
  refine Or.inl ⟨_, if_pos (by omega), fun k hk hki => ?_⟩
  rcases eq_or_ne k i with rfl | hne
  · exact Function.update_self _ _ _
  · exact (Function.update_of_ne hne _ _).trans (hvalues k hk (by omega))

end

/-! ## The declared length -/

section

variable {K : Type} [Field K] [LinearOrder K] [FloorRing K]

/-- The grid of the elevations is that of the mask. -/
def SameGrid (msk d : Databox K) : Prop := msk.nx = d.nx ∧ msk.ny = d.ny ∧ msk.nz = d.nz

theorem Tallied.defs_nonneg {msk : Databox K} {cells : List (ℤ × ℤ)} {t : Tally} (h : Tallied msk cells t) (k : ℤ) :
    0 ≤ t.defPCounts k := by
  rw [h.defs]
  exact Int.natCast_nonneg _

theorem buildSolid_start {msk top bot : Databox K} (hnz : msk.nz = 1) (htop : SameGrid msk top) (hbot : SameGrid msk bot)
    (checked : Bool) (room : ℤ) : buildSolid checked msk top bot room = (do
    let t ← tallyMask msk
    let t := sortPatches t
    let table ← buildTable (6 + t.npUsr + room) t fun _ => ⟨0, 0, 0, 0, 0, fun _ => 0⟩
    let patchValues ← buildValues (6 + t.npUsr + room) t table.allPatches fun _ => 0
    let build ← (gridLoop msk.nx msk.ny).foldlM (buildCell checked msk top bot (countFaces t) t.npUsr patchValues)
      ⟨[], table.allPatches, []⟩
    .ok ⟨t, countFaces t, table.nonBlanks, build⟩) := by
  unfold buildSolid
  rw [if_neg (not_not.mpr hnz), if_neg]
  rintro (h | h | h | h | h | h)
  · exact h htop.1
  · exact h hbot.1
  · exact h htop.2.1
  · exact h hbot.2.1
  · exact h htop.2.2
  · exact h hbot.2.2

/-- With the declared lengths the last entry of the table is one too many. -/
theorem makePatchySolid_eq_bounds {msk top bot : Databox K} (hnz : msk.nz = 1) (htop : SameGrid msk top) (hbot : SameGrid msk bot)
    (checked : Bool) (subPatches binOut : ℤ) : makePatchySolid 0 checked msk top bot subPatches binOut = .error .bounds := by
  unfold makePatchySolid
  rw [buildSolid_start hnz htop hbot]
  rcases tallyMask_cases msk with ⟨t, ht, htallied⟩ | ⟨e, he, rfl, -⟩
  · rw [bind_ok ht]
    have hsorted := htallied.sort
    have htable : (∃ s, buildTable (6 + (sortPatches t).npUsr + 0) (sortPatches t)
        (fun _ => ⟨0, 0, 0, 0, 0, fun _ => 0⟩) = .ok s ∧ _) ∨ _ :=
      buildTable_cases hsorted.users hsorted.defs_nonneg _
    rcases htable with ⟨s, -, hlen, -⟩ | ⟨e, he, rfl, -⟩
    · omega
    · dsimp only
      rw [he]
      rfl
  · rw [he]
    rfl

/-- The routine stays inside its tables only where it returns before it has any. -/
theorem makePatchySolid_inside_iff (msk top bot : Databox K) (htop : SameGrid msk top) (hbot : SameGrid msk bot)
    (subPatches binOut : ℤ) : makePatchySolid 0 true msk top bot subPatches binOut ≠ .error .bounds ↔ msk.nz ≠ 1 := by
  constructor
  · exact fun h hnz => h (makePatchySolid_eq_bounds hnz htop hbot true subPatches binOut)
  · intro hnz
    unfold makePatchySolid buildSolid
    rw [if_pos hnz]
    exact fun h => by cases h

/-- A mask of one cell. -/
def oneCell (v : ℚ) : Databox ℚ := ⟨1, 1, 1, 0, 0, 0, 1, 1, 1, fun _ => v⟩

theorem oneCell_inside_iff : makePatchySolid 0 true (oneCell 1) (oneCell 1) (oneCell 0) 0 0 ≠ .error .bounds ↔
    (oneCell 1).nz ≠ 1 :=
  makePatchySolid_inside_iff (oneCell 1) (oneCell 1) (oneCell 0) ⟨rfl, rfl, rfl⟩ ⟨rfl, rfl, rfl⟩ 0 0

/-- One active cell and no user patch: five entries are declared for the six default patches. -/
theorem oneCell_leaves_table : ¬ makePatchySolid 0 true (oneCell 1) (oneCell 1) (oneCell 0) 0 0 ≠ .error .bounds :=
  fun h => h (makePatchySolid_eq_bounds rfl ⟨rfl, rfl, rfl⟩ ⟨rfl, rfl, rfl⟩ true 0 0)

end

end ParFlow.PatchySolid
