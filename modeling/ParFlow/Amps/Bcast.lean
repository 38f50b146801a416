import ParFlow.Amps.AmpsDefs

/-! The messages of the broadcast run along a tree, so that every rank gets the value of the source from one
rank that holds it, in any order of the steps. -/

namespace ParFlow

open TreeBroadcast

/-! ## The numbering from the source -/

theorem vtor_rtov (source r : ℕ) : vtor source (rtov source r) = r := by
  unfold vtor rtov
  grind

theorem rtov_vtor (source v : ℕ) : rtov source (vtor source v) = v := by
  unfold vtor rtov
  grind

theorem rtov_lt {N source : ℕ} (hs : source < N) (r : ℕ) : rtov source r < N ↔ r < N := by
  unfold rtov
  grind

theorem vtor_lt {N source : ℕ} (hs : source < N) (v : ℕ) : vtor source v < N ↔ v < N := by
  rw [← rtov_lt hs (vtor source v), rtov_vtor]

@[simp] theorem rtov_source (source : ℕ) : rtov source source = 0 := by
  simp [rtov]

theorem rtov_eq_zero_iff (source r : ℕ) : rtov source r = 0 ↔ r = source := by
  unfold rtov
  grind

theorem vtor_injective (source : ℕ) : Function.Injective (vtor source) :=
  Function.LeftInverse.injective (rtov_vtor source)

/-! ## The binomial tree -/

theorem xor_two_pow {a k : ℕ} (h : 2 ^ (k + 1) ∣ a) : a ^^^ 2 ^ k = a + 2 ^ k := by
  obtain ⟨b, rfl⟩ := h
  rw [Nat.two_pow_add_eq_or_of_lt (Nat.pow_lt_pow_right one_lt_two k.lt_succ_self)]
  apply Nat.eq_of_testBit_eq
  intro i
  rw [Nat.testBit_xor, Nat.testBit_or, Nat.testBit_two_pow_mul, Nat.testBit_two_pow]
  by_cases hi : k = i
  · subst hi
    simp
  · simp [hi]

/-- The exponent of the lowest bit of a rank, and of the whole block for rank 0. -/
def lowBit (m v : ℕ) : ℕ := if v = 0 then m else padicValNat 2 v

/-- The ranks that a rank of the tree sends to, once it has received. -/
def served (v k : ℕ) : List ℕ := (List.range k).reverse.map fun j => v + 2 ^ j

theorem served_succ (v k : ℕ) : served v (k + 1) = (v + 2 ^ k) :: served v k := by
  simp [served, List.range_succ]

theorem two_pow_dvd_iff {v : ℕ} (hv : v ≠ 0) (j : ℕ) : 2 ^ j ∣ v ↔ j ≤ padicValNat 2 v :=
  padicValNat_dvd_iff_le_of_ne_one (by decide) hv

theorem padicValNat_add_two_pow {a k : ℕ} (h : 2 ^ (k + 1) ∣ a) : padicValNat 2 (a + 2 ^ k) = k := by
  have hne : a + 2 ^ k ≠ 0 := by positivity
  have hdvd : 2 ^ k ∣ a := (pow_dvd_pow 2 k.le_succ).trans h
  apply le_antisymm
  · by_contra hlt
    have hbig := (two_pow_dvd_iff hne (k + 1)).mpr (by omega)
    have hpow := (Nat.dvd_add_right h).mp hbig
    exact absurd (Nat.le_of_dvd (by positivity) hpow) (by simp [pow_succ])
  · exact (two_pow_dvd_iff hne k).mp (dvd_add hdvd dvd_rfl)

theorem two_pow_dvd_sub {c : ℕ} (hc : c ≠ 0) : 2 ^ (padicValNat 2 c + 1) ∣ c - 2 ^ padicValNat 2 c := by
  obtain ⟨o, ho⟩ := (two_pow_dvd_iff hc _).mpr le_rfl
  have hodd : ¬ 2 ∣ o := by
    intro hdvd
    have hbig : 2 ^ (padicValNat 2 c + 1) ∣ c := by
      rw [pow_succ]
      nth_rewrite 2 [ho]
      exact Nat.mul_dvd_mul_left _ hdvd
    exact absurd ((two_pow_dvd_iff hc _).mp hbig) (by omega)
  have hsub : c - 2 ^ padicValNat 2 c = 2 ^ padicValNat 2 c * (o - 1) := by
    nth_rewrite 1 [ho]
    rw [Nat.mul_sub_one]
  rw [hsub, pow_succ]
  exact Nat.mul_dvd_mul_left _ (by omega)

theorem shiftRight_two_pow (k : ℕ) : 2 ^ (k + 1) >>> 1 = 2 ^ k := by
  rw [Nat.shiftRight_one, pow_succ, Nat.mul_div_cancel _ two_pos]

/-- A rank that has received serves the ranks in its block. -/
theorem bcastLoop_recvd (source begin : ℕ) {v k : ℕ} (h : 2 ^ k ∣ v) :
    bcastLoop source v (2 ^ k >>> 1) begin true = (served v k).map fun c => .send (vtor source c) := by
  induction k with
  | zero => simp [bcastLoop, served]
  | succ k ih =>
    rw [shiftRight_two_pow, bcastLoop, if_pos Nat.one_le_two_pow, served_succ, List.map_cons,
      ← ih ((pow_dvd_pow 2 k.le_succ).trans h), xor_two_pow h]
    simp

/-- A rank that has not received yet waits for the start of the block in which it is the middle. -/
theorem bcastLoop_waits (source : ℕ) {v k : ℕ} (h : v % 2 ^ k ≠ 0) :
    bcastLoop source v (2 ^ k >>> 1) (v - v % 2 ^ k) false =
      .recv (vtor source (v - 2 ^ padicValNat 2 v)) ::
        (served v (padicValNat 2 v)).map fun c => .send (vtor source c) := by
  induction k with
  | zero => exact absurd (Nat.mod_one v) (by simpa using h)
  | succ k ih =>
    have hdvd : 2 ^ (k + 1) ∣ v - v % 2 ^ (k + 1) := Nat.dvd_sub_mod v
    have hle : v % 2 ^ (k + 1) ≤ v := Nat.mod_le _ _
    have hmod : v % 2 ^ k = v % 2 ^ (k + 1) % 2 ^ k := (Nat.mod_mod_of_dvd v (pow_dvd_pow 2 k.le_succ)).symm
    have hlt : v % 2 ^ (k + 1) < 2 ^ (k + 1) := Nat.mod_lt _ (by positivity)
    rw [pow_succ] at hlt
    rw [shiftRight_two_pow, bcastLoop, if_pos Nat.one_le_two_pow, xor_two_pow hdvd]
    by_cases hmid : v % 2 ^ (k + 1) = 2 ^ k
    · -- the rank is the middle of the block
      have hv : v - v % 2 ^ (k + 1) + 2 ^ k = v := by omega
      have hval : padicValNat 2 v = k := by
        rw [← hv]
        exact padicValNat_add_two_pow hdvd
      have hrest := bcastLoop_recvd source (v - v % 2 ^ (k + 1)) ((two_pow_dvd_iff (by omega) k).mpr hval.ge)
      rw [hmid] at hv hrest ⊢
      simp [hv, hval, hrest]
    · have hnext : v % 2 ^ k ≠ 0 ∧ (if v - v % 2 ^ (k + 1) + 2 ^ k ≤ v then v - v % 2 ^ (k + 1) + 2 ^ k
          else v - v % 2 ^ (k + 1)) = v - v % 2 ^ k := by
        by_cases hhigh : 2 ^ k ≤ v % 2 ^ (k + 1)
        · have hmod' : v % 2 ^ k = v % 2 ^ (k + 1) - 2 ^ k := by
            rw [hmod, Nat.mod_eq_sub_mod hhigh, Nat.mod_eq_of_lt (by omega)]
          rw [if_pos (by omega)]
          omega
        · have hmod' : v % 2 ^ k = v % 2 ^ (k + 1) := by
            rw [hmod, Nat.mod_eq_of_lt (by omega)]
          rw [if_neg (by omega)]
          omega
      have hne : v - v % 2 ^ (k + 1) + 2 ^ k ≠ v := by omega
      simp only [hne, ne_eq, not_false_eq_true, decide_true, Bool.not_false, Bool.and_true, if_true, hnext.2]
      exact ih hnext.1

/-! ## The tree of the broadcast -/

/-- The greatest power of two that is not above the number. -/
def IsPowerBelow (poft N : ℕ) : Prop := ∃ m, poft = 2 ^ m ∧ 2 ^ m ≤ N ∧ N < 2 ^ (m + 1)

section Tree

variable {N m source : ℕ}

def virtualParent (m v : ℕ) : ℕ := if 2 ^ m ≤ v then v - 2 ^ m else v - 2 ^ padicValNat 2 v

def virtualChildren (N m v : ℕ) : List ℕ :=
  if 2 ^ m ≤ v then [] else served v (lowBit m v) ++ if v < N - 2 ^ m then [2 ^ m + v] else []

theorem lowBit_dvd (m v : ℕ) : 2 ^ lowBit m v ∣ v := by
  unfold lowBit
  split
  · simp [*]
  · next hv => exact (two_pow_dvd_iff hv _).mpr le_rfl

theorem lt_of_mem_served {v c : ℕ} (hv : v < 2 ^ m) (hc : c ∈ served v (lowBit m v)) : c < 2 ^ m := by
  simp only [served, List.mem_map, List.mem_reverse, List.mem_range] at hc
  obtain ⟨j, hj, rfl⟩ := hc
  have hlow : lowBit m v ≤ m := by
    unfold lowBit
    split
    · exact le_rfl
    · next hne =>
      by_contra hlt
      have hdvd : 2 ^ m ∣ v := (two_pow_dvd_iff hne m).mpr (by omega)
      exact absurd (Nat.le_of_dvd (by omega) hdvd) (by omega)
  have hgap : v + 2 ^ lowBit m v ≤ 2 ^ m := by
    obtain ⟨a, ha⟩ := lowBit_dvd m v
    obtain ⟨b, hb⟩ := pow_dvd_pow 2 hlow
    rw [hb] at hv ⊢
    nth_rewrite 1 [ha] at hv
    nth_rewrite 1 [ha]
    have hab : a < b := lt_of_mul_lt_mul_left hv (Nat.zero_le _)
    calc 2 ^ lowBit m v * a + 2 ^ lowBit m v = 2 ^ lowBit m v * (a + 1) := by ring
      _ ≤ 2 ^ lowBit m v * b := Nat.mul_le_mul_left _ hab
  have hpow : 2 ^ j < 2 ^ lowBit m v := Nat.pow_lt_pow_right one_lt_two hj
  omega

theorem mem_served_iff {v c : ℕ} (hv : v < 2 ^ m) :
    c ∈ served v (lowBit m v) ↔ c < 2 ^ m ∧ c ≠ 0 ∧ c - 2 ^ padicValNat 2 c = v := by
  constructor
  · intro hc
    refine ⟨lt_of_mem_served hv hc, ?_⟩
    simp only [served, List.mem_map, List.mem_reverse, List.mem_range] at hc
    obtain ⟨j, hj, rfl⟩ := hc
    have hdvd : 2 ^ (j + 1) ∣ v := (pow_dvd_pow 2 hj).trans (lowBit_dvd m v)
    rw [padicValNat_add_two_pow hdvd]
    exact ⟨by positivity, Nat.add_sub_cancel _ _⟩
  · rintro ⟨hlt, hne, rfl⟩
    have hdvd := (two_pow_dvd_iff hne _).mpr le_rfl
    have hle := Nat.le_of_dvd (Nat.pos_of_ne_zero hne) hdvd
    simp only [served, List.mem_map, List.mem_reverse, List.mem_range]
    refine ⟨padicValNat 2 c, ?_, Nat.sub_add_cancel hle⟩
    unfold lowBit
    split
    · next hzero =>
      have hpow : 2 ^ padicValNat 2 c < 2 ^ m := by omega
      exact (Nat.pow_lt_pow_iff_right one_lt_two).mp hpow
    · next hpos => exact (two_pow_dvd_iff hpos _).mp (two_pow_dvd_sub hne)

theorem mem_virtualChildren (hlt : N < 2 ^ (m + 1)) (hle : 2 ^ m ≤ N) (p c : ℕ) :
    c ∈ virtualChildren N m p ↔ c < N ∧ c ≠ 0 ∧ virtualParent m c = p := by
  rw [pow_succ] at hlt
  unfold virtualChildren virtualParent
  by_cases hp : 2 ^ m ≤ p
  · rw [if_pos hp]
    constructor
    · intro hc
      exact absurd hc List.not_mem_nil
    · rintro ⟨hc, -, hparent⟩
      have hbelow : c - 2 ^ padicValNat 2 c ≤ c := Nat.sub_le _ _
      split at hparent <;> omega
  · rw [if_neg hp, List.mem_append, mem_served_iff (not_le.mp hp)]
    by_cases hc : 2 ^ m ≤ c
    · have hpow : 0 < 2 ^ m := by positivity
      rw [if_pos hc]
      rw [or_iff_right (fun hserved => absurd hserved.1 (not_lt.mpr hc))]
      split
      · rw [List.mem_singleton]
        omega
      · rw [List.mem_nil_iff, false_iff]
        omega
    · have hnot : c ∉ if p < N - 2 ^ m then [2 ^ m + p] else [] := by
        split
        · rw [List.mem_singleton]
          omega
        · exact List.not_mem_nil
      rw [if_neg hc]
      constructor
      · rintro (⟨-, hne, hparent⟩ | hmem)
        · exact ⟨by omega, hne, hparent⟩
        · exact absurd hmem hnot
      · rintro ⟨-, hne, hparent⟩
        exact .inl ⟨not_le.mp hc, hne, hparent⟩

theorem nodup_served (v k : ℕ) : (served v k).Nodup := by
  apply List.Nodup.map
  · intro i j hij
    exact Nat.pow_right_injective le_rfl (Nat.add_left_cancel hij)
  · exact List.nodup_reverse.mpr List.nodup_range

theorem nodup_virtualChildren (N m v : ℕ) : (virtualChildren N m v).Nodup := by
  unfold virtualChildren
  split
  · exact List.nodup_nil
  · next hv =>
    rw [List.nodup_append]
    refine ⟨nodup_served _ _, ?_, ?_⟩
    · split
      · exact List.nodup_singleton _
      · exact List.nodup_nil
    · intro a ha b hb
      have hlt := lt_of_mem_served (not_le.mp hv) ha
      split at hb
      · rw [List.mem_singleton] at hb
        omega
      · exact absurd hb List.not_mem_nil

theorem virtualParent_lt {c : ℕ} (hc : c ≠ 0) : virtualParent m c < c := by
  have hpos : 0 < 2 ^ m := by positivity
  have hpos' : 0 < 2 ^ padicValNat 2 c := by positivity
  unfold virtualParent
  split
  · omega
  · omega

/-- The tree of the ranks. -/
def bcastTree (hs : source < N) (hle : 2 ^ m ≤ N) (hlt : N < 2 ^ (m + 1)) : TreeBroadcast.Tree ℕ where
  nodes := Finset.range N
  root := source
  parent r := vtor source (virtualParent m (rtov source r))
  children r := (virtualChildren N m (rtov source r)).map (vtor source)
  depth r := rtov source r
  root_mem := Finset.mem_range.mpr hs
  parent_mem c hc hroot := by
    rw [Finset.mem_range] at hc ⊢
    have hne : rtov source c ≠ 0 := mt (rtov_eq_zero_iff source c).mp hroot
    rw [vtor_lt hs]
    exact (virtualParent_lt hne).trans ((rtov_lt hs c).mpr hc)
  mem_children p _ c := by
    rw [Finset.mem_range, ← rtov_lt hs c, ne_eq, ← rtov_eq_zero_iff source c]
    constructor
    · intro hc
      obtain ⟨v, hv, rfl⟩ := List.mem_map.mp hc
      obtain ⟨hvN, hv0, hparent⟩ := (mem_virtualChildren hlt hle _ v).mp hv
      rw [rtov_vtor, hparent, vtor_rtov]
      exact ⟨hvN, hv0, rfl⟩
    · rintro ⟨hc, hne, hparent⟩
      apply List.mem_map.mpr
      refine ⟨rtov source c, (mem_virtualChildren hlt hle _ _).mpr ⟨hc, hne, ?_⟩, vtor_rtov source c⟩
      rw [← hparent, rtov_vtor]
  nodup_children p _ := (nodup_virtualChildren N m _).map (vtor_injective source)
  depth_parent c _ hroot := by
    rw [rtov_vtor]
    exact virtualParent_lt (mt (rtov_eq_zero_iff source c).mp hroot)

/-- The calls of a rank of the tree. -/
theorem bcastLoop_eq (source : ℕ) {v : ℕ} (hv : v < 2 ^ m) :
    bcastLoop source v (2 ^ m >>> 1) 0 (v = 0) =
      (if v = 0 then [] else [.recv (vtor source (v - 2 ^ padicValNat 2 v))]) ++
        (served v (lowBit m v)).map fun c => .send (vtor source c) := by
  by_cases hzero : v = 0
  · subst hzero
    simpa [lowBit] using bcastLoop_recvd source 0 (dvd_zero (2 ^ m))
  · have hmod : v % 2 ^ m = v := Nat.mod_eq_of_lt hv
    have hwaits := bcastLoop_waits source (v := v) (k := m) (by rwa [hmod])
    rw [hmod, Nat.sub_self] at hwaits
    simpa [lowBit, hzero] using hwaits

/-- The calls of a rank are those of its place in the tree. -/
theorem program_bcastTree (hs : source < N) (hle : 2 ^ m ≤ N) (hlt : N < 2 ^ (m + 1))
    (hpoft : (ampsFindPowers N).nprev = 2 ^ m) (r : ℕ) :
    (bcastTree hs hle hlt).program r = if r < N then ampsBCast N source r else [] := by
  unfold Tree.program
  simp only [bcastTree, Finset.mem_range]
  by_cases hr : r < N
  · rw [if_pos hr, if_pos hr]
    unfold ampsBCast virtualChildren virtualParent
    simp only [hpoft, ← rtov_eq_zero_iff source r]
    have hpow : 0 < 2 ^ m := by positivity
    by_cases hv : 2 ^ m ≤ rtov source r
    · have hne : rtov source r ≠ 0 := by omega
      simp [hv, hne]
    · have hlast : List.map Op.send (List.map (vtor source) (if rtov source r < N - 2 ^ m then [2 ^ m + rtov source r] else [])) =
          if rtov source r < N - 2 ^ m then [.send (vtor source (2 ^ m + rtov source r))] else [] := by
        split <;> rfl
      simp only [if_neg hv, bcastLoop_eq source (not_le.mp hv), List.map_append, hlast, List.map_map, List.append_assoc]
      rfl
  · rw [if_neg hr, if_neg hr]

theorem inv_of_bcast {α : Type*} {data : ℕ → α} {s : State ℕ α} (hs : source < N)
    (hpoft : IsPowerBelow (ampsFindPowers N).nprev N) (hreach : Reachable (bcastStart N source data) s) :
    ∃ t : TreeBroadcast.Tree ℕ, t.root = source ∧ t.nodes = Finset.range N ∧ t.Inv (data source) s := by
  obtain ⟨m, hm, hle, hlt⟩ := hpoft
  refine ⟨bcastTree hs hle hlt, rfl, rfl, ?_⟩
  have hprogram : (bcastTree hs hle hlt).program = fun rank => if rank < N then ampsBCast N source rank else [] := by
    funext r
    exact program_bcastTree hs hle hlt hm r
  unfold bcastStart at hreach
  rw [← hprogram] at hreach
  exact Tree.inv_of_reachable hreach

end Tree

/-! ## The broadcast -/

/-- The rank is the source, or it has received its one message, and holds the value of the source. -/
def HoldsSource {α : Type*} (source : ℕ) (data : ℕ → α) (s : State ℕ α) (r : ℕ) : Prop :=
  s.data r = data source ∧ (r = source ∨ (s.got r).length = 1)

theorem holdsSource_of_serves {α : Type*} {t : TreeBroadcast.Tree ℕ} {data : ℕ → α} {s : State ℕ α} {r : ℕ}
    (h : t.Serves (data t.root) s r) : HoldsSource t.root data s r := by
  obtain ⟨hdata, hgot, -⟩ := h
  refine ⟨hdata, ?_⟩
  by_cases hr : r = t.root
  · exact .inl hr
  · rw [if_neg hr] at hgot
    exact .inr (by rw [hgot]; rfl)

/-- In every state of every run the source has received nothing, every other rank at most one message, from a
rank that holds the value of the source, and exactly one once it is finished. Who is about to send holds the value.
All messages are received in the end, some rank can always go on, and the run ends. -/
theorem ampsBCast_delivers {α : Type*} (N source : ℕ) (hs : source < N)
    (hpoft : IsPowerBelow (ampsFindPowers N).nprev N) (data : ℕ → α) (s : State ℕ α)
    (hreach : Reachable (bcastStart N source data) s) :
    s.got source = [] ∧
      (∀ r < N, r ≠ source → s.got r = [] ∨ HoldsSource source data s r ∧ ∃ p, s.got r = [p] ∧ HoldsSource source data s p) ∧
      (∀ r < N, s.todo r = [] → HoldsSource source data s r) ∧
      (∀ p q rest, s.todo p = .send q :: rest → HoldsSource source data s p) ∧
      (∀ p q, (s.sent p).count q = (s.got q).count p + (s.chan (p, q)).length) ∧
      (Finished s → ∀ p q, s.chan (p, q) = []) ∧
      (¬ Finished s → ∃ p, s.todo p ≠ [] ∧ ¬ Blocked s p) ∧
      Acc (fun s' s => Step s s') s := by
  obtain ⟨t, rfl, hnodes, hinv⟩ := inv_of_bcast hs hpoft hreach
  refine ⟨hinv.got_root, ?_, ?_, ?_, hinv.count_sent, hinv.chan_of_finished, ?_, hinv.acc_step⟩
  · intro r hr hroot
    have hmem : r ∈ t.nodes := by rwa [hnodes, Finset.mem_range]
    obtain ⟨-, -, hgot, -⟩ | hserves := hinv.phase r hmem
    · exact .inl hgot
    · have hgot := hserves.2.1
      rw [if_neg hroot] at hgot
      have hsent := hinv.served r (by simp [hgot])
      obtain ⟨hpmem, -⟩ := hinv.parent_of_sent hsent
      obtain ⟨-, -, -, hnil⟩ | hparent := hinv.phase (t.parent r) hpmem
      · simp [hnil] at hsent
      · exact .inr ⟨holdsSource_of_serves hserves, t.parent r, hgot, holdsSource_of_serves hparent⟩
  · intro r hr htodo
    have hmem : r ∈ t.nodes := by rwa [hnodes, Finset.mem_range]
    obtain ⟨-, hwaits, -⟩ | hserves := hinv.phase r hmem
    · simp [htodo] at hwaits
    · exact holdsSource_of_serves hserves
  · intro p q rest hp
    exact holdsSource_of_serves (hinv.serves_of_send hp).2
  · intro hfin
    obtain ⟨p, hp⟩ := not_forall.mp hfin
    obtain ⟨q, hq, hready⟩ := hinv.exists_ready hp
    exact ⟨q, hq, fun hblocked => hblocked.2 hready⟩

/-! ## Where the power of two is right -/

/-- The bound from above in the next round. -/
theorem powersStep_high {k : ℕ} (hk : k + 1 ≤ 31) : (2 ^ (31 - k) - 1) >>> 1 = 2 ^ (31 - (k + 1)) - 1 := by
  have hsucc : 31 - k = (31 - (k + 1)) + 1 := by omega
  rw [Nat.shiftRight_one, hsucc, pow_succ]
  omega

theorem powersStep_low (k : ℕ) : 2 ^ k <<< 1 = 2 ^ (k + 1) := by
  rw [Nat.shiftLeft_eq, pow_one, pow_succ]

theorem findPowersLoop_eq {N k : ℕ} (hN : N ≤ 2 ^ 15) (hk : k ≤ 15) (hlow : k = 0 ∨ 2 ^ (k - 1) < N) :
    ∃ K ≤ 15, N ≤ 2 ^ K ∧ (K = 0 ∨ 2 ^ (K - 1) < N) ∧
      findPowersLoop N ⟨2 ^ (31 - k) - 1, 31 - k, 2 ^ k, k⟩ = ⟨2 ^ (31 - K) - 1, 31 - K, 2 ^ K, K⟩ := by
  induction hj : 15 - k generalizing k with
  | zero =>
    obtain rfl : k = 15 := by omega
    refine ⟨15, le_rfl, hN, hlow, ?_⟩
    rw [findPowersLoop, if_neg (fun h => absurd h.2 (not_lt.mpr hN))]
  | succ j ih =>
    by_cases hend : N ≤ 2 ^ k
    · refine ⟨k, hk, hend, hlow, ?_⟩
      rw [findPowersLoop, if_neg (fun h => absurd h.2 (not_lt.mpr hend))]
    · obtain ⟨K, hK⟩ := ih (k := k + 1) (by omega) (.inr (by simpa using hend)) (by omega)
      refine ⟨K, hK.1, hK.2.1, hK.2.2.1, ?_⟩
      have hhigh : N < 2 ^ (31 - k) - 1 := by
        have hpow : 2 ^ 17 ≤ 2 ^ (31 - k) := Nat.pow_le_pow_right two_pos (by omega)
        omega
      rw [← hK.2.2.2, findPowersLoop, if_pos ⟨hhigh, not_le.mp hend⟩]
      simp only [powersStep_high (show k + 1 ≤ 31 by omega), powersStep_low, Nat.sub_sub]

/-- With more than 32768 ranks the two ends of the search pass each other. -/
theorem ampsFindPowers_nprev {N : ℕ} (hpos : 1 ≤ N) (hN : N ≤ 2 ^ 15) : IsPowerBelow (ampsFindPowers N).nprev N := by
  obtain ⟨K, hK, hle, hlow, hloop⟩ := findPowersLoop_eq hN (Nat.zero_le 15) (.inl rfl)
  have hstart : findPowersLoop N ⟨ampsHighestLong, ampsHighestLongLog, 1, 0⟩ = ⟨2 ^ (31 - K) - 1, 31 - K, 2 ^ K, K⟩ := hloop
  have hhigh : ¬ 2 ^ (31 - K) - 1 ≤ N := by
    have hpow : 2 ^ 16 ≤ 2 ^ (31 - K) := Nat.pow_le_pow_right two_pos (by omega)
    omega
  unfold ampsFindPowers
  simp only [hstart, if_neg hhigh]
  by_cases heq : 2 ^ K = N
  · simp only [if_pos heq, if_true]
    exact ⟨K, heq.symm, heq.le, by rw [pow_succ]; omega⟩
  · have hlow' : 2 ^ (K - 1) < N := by
      obtain rfl | hlow := hlow
      · exact absurd (le_antisymm hpos (by simpa using hle)) (by simpa using heq)
      · exact hlow
    obtain ⟨j, rfl⟩ : ∃ j, K = j + 1 := by
      refine ⟨K - 1, (Nat.sub_add_cancel (Nat.one_le_iff_ne_zero.mpr ?_)).symm⟩
      rintro rfl
      rw [Nat.zero_sub] at hlow'
      omega
    simp only [if_neg heq, if_neg (Ne.symm heq), shiftRight_two_pow]
    exact ⟨j, rfl, hlow'.le, lt_of_le_of_ne hle (Ne.symm heq)⟩

theorem five_ranks_delivered : ∃ s, Reachable (bcastStart 5 1 fun r => 10 * r) s ∧ Finished s ∧ ∀ r < 5, s.data r = 10 := by
  have hpoft := ampsFindPowers_nprev (N := 5) (by decide) (by decide)
  have hstart : Reachable (bcastStart 5 1 fun r => 10 * r) (bcastStart 5 1 fun r => 10 * r) := .refl
  obtain ⟨t, -, -, hinv⟩ := inv_of_bcast (by decide) hpoft hstart
  obtain ⟨s, hreach, hfin⟩ := hinv.exists_finished
  refine ⟨s, hreach, hfin, ?_⟩
  intro r hr
  exact ((ampsBCast_delivers 5 1 (by decide) hpoft _ s hreach).2.2.1 r hr (hfin r)).1

end ParFlow

/-! The powers of two around a number of processes. The search comes down from `AMPS_HIGHEST_LONG`, which is one
less than a power of two, so that its result is right only where the search from below ends first. -/

namespace ParFlow

def IsPowerOfTwo (m : ℕ) : Prop := ∃ k, m = 2 ^ k

/-- What `amps_FindPowers` is to return. -/
structure FindsPowers (N : ℕ) (p : Powers) : Prop where
  next : IsLeast {m | N ≤ m ∧ IsPowerOfTwo m} p.nnext
  prev : IsGreatest {m | m ≤ N ∧ IsPowerOfTwo m} p.nprev
  log_eq : 2 ^ p.log = p.nnext

/-! ## The search from below ends first -/

theorem isPowerOfTwo_isLeast {N K : ℕ} (hle : N ≤ 2 ^ K) (hlow : K = 0 ∨ 2 ^ (K - 1) < N) :
    IsLeast {m | N ≤ m ∧ IsPowerOfTwo m} (2 ^ K) := by
  refine ⟨⟨hle, K, rfl⟩, ?_⟩
  rintro m ⟨hm, j, rfl⟩
  apply Nat.pow_le_pow_right two_pos
  by_contra hlt
  have hj : 2 ^ j ≤ 2 ^ (K - 1) := Nat.pow_le_pow_right two_pos (by omega)
  omega

theorem IsPowerBelow.isGreatest {poft N : ℕ} (h : IsPowerBelow poft N) :
    IsGreatest {m | m ≤ N ∧ IsPowerOfTwo m} poft := by
  obtain ⟨k, rfl, hle, hlt⟩ := h
  refine ⟨⟨hle, k, rfl⟩, ?_⟩
  rintro m ⟨hm, j, rfl⟩
  apply Nat.pow_le_pow_right two_pos
  by_contra hgt
  have hj : 2 ^ (k + 1) ≤ 2 ^ j := Nat.pow_le_pow_right two_pos (by omega)
  omega

theorem findsPowers_of_le {N : ℕ} (hpos : 1 ≤ N) (hN : N ≤ 2 ^ 15) : FindsPowers N (ampsFindPowers N) := by
  obtain ⟨K, hK, hle, hlow, hloop⟩ := findPowersLoop_eq hN (Nat.zero_le 15) (.inl rfl)
  have hstart : findPowersLoop N ⟨ampsHighestLong, ampsHighestLongLog, 1, 0⟩ = ⟨2 ^ (31 - K) - 1, 31 - K, 2 ^ K, K⟩ := hloop
  have hhigh : ¬ 2 ^ (31 - K) - 1 ≤ N := by
    have hpow : 2 ^ 16 ≤ 2 ^ (31 - K) := Nat.pow_le_pow_right two_pos (by omega)
    omega
  have hnext : (ampsFindPowers N).nnext = 2 ^ K ∧ (ampsFindPowers N).log = K := by
    unfold ampsFindPowers
    simp only [hstart, if_neg hhigh]
    split_ifs with heq
    · exact ⟨heq.symm, rfl⟩
    · exact ⟨rfl, rfl⟩
  constructor
  · rw [hnext.1]
    exact isPowerOfTwo_isLeast hle hlow
  · exact (ampsFindPowers_nprev hpos hN).isGreatest
  · rw [hnext.1, hnext.2]

/-! ## The search from above ends first -/

theorem not_isPowerOfTwo_pred {j : ℕ} (hj : 2 ≤ j) : ¬ IsPowerOfTwo (2 ^ j - 1) := by
  rintro ⟨k, hk⟩
  obtain ⟨i, rfl⟩ := Nat.exists_eq_add_of_le' hj
  have hbig : 1 ≤ 2 ^ i := Nat.one_le_two_pow
  rw [pow_add] at hk
  cases k with
  | zero => omega
  | succ k =>
    rw [pow_succ] at hk
    omega

/-- Beyond 32768 the search from above ends at a number that is one less than a power of two. -/
theorem findPowersLoop_high {N k : ℕ} (hN : 2 ^ 15 < N) (hk : k ≤ 16) :
    ∃ K ≤ 16, 2 ^ (31 - K) - 1 ≤ N ∧
      findPowersLoop N ⟨2 ^ (31 - k) - 1, 31 - k, 2 ^ k, k⟩ = ⟨2 ^ (31 - K) - 1, 31 - K, 2 ^ K, K⟩ := by
  induction hj : 16 - k generalizing k with
  | zero =>
    obtain rfl : k = 16 := by omega
    have hend : 2 ^ (31 - 16) - 1 ≤ N := by omega
    refine ⟨16, le_rfl, hend, ?_⟩
    rw [findPowersLoop, if_neg (fun h => absurd h.1 (not_lt.mpr hend))]
  | succ j ih =>
    by_cases hend : 2 ^ (31 - k) - 1 ≤ N
    · refine ⟨k, hk, hend, ?_⟩
      rw [findPowersLoop, if_neg (fun h => absurd h.1 (not_lt.mpr hend))]
    · obtain ⟨K, hK, hhigh, hloop⟩ := ih (k := k + 1) (by omega) (by omega)
      have hlow : 2 ^ k < N := lt_of_le_of_lt (Nat.pow_le_pow_right two_pos (by omega)) hN
      refine ⟨K, hK, hhigh, ?_⟩
      rw [← hloop, findPowersLoop, if_pos ⟨not_le.mp hend, hlow⟩]
      simp only [powersStep_high (show k + 1 ≤ 31 by omega), powersStep_low, Nat.sub_sub]

theorem not_findsPowers {N : ℕ} (hN : 2 ^ 15 < N) : ¬ FindsPowers N (ampsFindPowers N) := by
  intro h
  obtain ⟨K, hK, hhigh, hloop⟩ := findPowersLoop_high hN (Nat.zero_le 16)
  have hstart : findPowersLoop N ⟨ampsHighestLong, ampsHighestLongLog, 1, 0⟩ = ⟨2 ^ (31 - K) - 1, 31 - K, 2 ^ K, K⟩ := hloop
  have hpower := h.next.1.2
  have hnext : (ampsFindPowers N).nnext = if 2 ^ (31 - K) - 1 = N then N else (2 ^ (31 - K) - 1) <<< 1 := by
    unfold ampsFindPowers
    simp only [hstart, if_pos hhigh]
    split_ifs <;> rfl
  rw [hnext] at hpower
  split_ifs at hpower with heq
  · rw [← heq] at hpower
    exact not_isPowerOfTwo_pred (by omega) hpower
  · -- twice a number that is no power of two
    obtain ⟨k, hk⟩ := hpower
    rw [Nat.shiftLeft_eq, pow_one] at hk
    have hbig : 2 ^ 15 ≤ 2 ^ (31 - K) := Nat.pow_le_pow_right two_pos (by omega)
    cases k with
    | zero => omega
    | succ k =>
      rw [pow_succ] at hk
      exact not_isPowerOfTwo_pred (j := 31 - K) (by omega) ⟨k, by omega⟩

/-- For numbers of processes up to `2 ^ 30`, where nothing overflows, the result is right up to 32768. -/
theorem ampsFindPowers_iff (N : ℕ) (hpos : 1 ≤ N) (_hN : N ≤ 2 ^ 30) :
    FindsPowers N (ampsFindPowers N) ↔ N ≤ 2 ^ 15 := by
  constructor
  · intro h
    by_contra hlt
    exact not_findsPowers (not_le.mp hlt) h
  · exact findsPowers_of_le hpos

theorem five_findsPowers : FindsPowers 5 (ampsFindPowers 5) :=
  (ampsFindPowers_iff 5 (by decide) (by decide)).mpr (by decide)

/-- For 40000 processes the next power is found to be 65534. -/
theorem not_all_findsPowers : ¬ ∀ N : ℕ, 1 ≤ N → N ≤ 2 ^ 30 → FindsPowers N (ampsFindPowers N) := by
  intro h
  exact not_findsPowers (N := 40000) (by decide) (h 40000 (by decide) (by decide))

end ParFlow
