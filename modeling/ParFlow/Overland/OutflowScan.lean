import ParFlow.Lib.ExceptLoop
import ParFlow.Overland.FluxDefs

/-! What the scan of a line does at each of its places. -/

namespace ParFlow

open IntLoop FuelRun ExceptLoop

section

variable {σ : Type} (t : ℤ → ℤ) (lo : ℤ)

/-- Whether the scan, which starts before `lo`, goes from inactive to active at `lo`, `lo + 1` and so on: the line rises
there, and the scan has not just gone active two places before. -/
def enteredFrom : ℕ → Bool
  | 0 => t (lo - 1) < 0 ∧ 0 ≤ t lo
  | 1 => t lo < 0 ∧ 0 ≤ t (lo + 1)
  | m + 2 => (t (lo + m + 1) < 0 ∧ 0 ≤ t (lo + m + 2)) ∧ ¬ enteredFrom m

def Entered (j : ℤ) : Prop := lo ≤ j ∧ enteredFrom t lo (j - lo).toNat = true

instance (j : ℤ) : Decidable (Entered t lo j) := inferInstanceAs (Decidable (_ ∧ _))

/-- The scan takes `j` for the last column of a run: it has passed into it, or has just gone active before it. -/
def Leaves (j : ℤ) : Prop := t (j + 1) < 0 ∧ (0 ≤ t j ∧ ¬ Entered t lo j ∨ t j < 0 ∧ Entered t lo (j - 1))

instance (j : ℤ) : Decidable (Leaves t lo j) := inferInstanceAs (Decidable (_ ∧ _))

def lineStep (low high : ℤ → ℤ → σ → σ) (s : σ) (j : ℤ) : σ :=
  let s := if Entered t lo j then low j (t j) s else s
  if Leaves t lo j then high j (t j) s else s

end

section

variable {σ : Type} {t : ℤ → ℤ} {lo n j k : ℤ} {low high : ℤ → ℤ → σ → σ} {s : σ}

theorem entered_iff : Entered t lo j ↔ lo ≤ j ∧ (t (j - 1) < 0 ∧ 0 ≤ t j) ∧ ¬ Entered t lo (j - 2) := by
  unfold Entered
  refine and_congr_right fun hj => ?_
  obtain ⟨m, rfl⟩ := Int.le.dest hj
  rw [add_sub_cancel_left, Int.toNat_natCast]
  match m with
  | 0 =>
    rw [enteredFrom, decide_eq_true_iff, Nat.cast_zero, add_zero]
    exact ⟨fun h => ⟨h, fun h' => by omega⟩, fun h => h.1⟩
  | 1 =>
    rw [enteredFrom, decide_eq_true_iff, Nat.cast_one, add_sub_cancel_right]
    exact ⟨fun h => ⟨h, fun h' => by omega⟩, fun h => h.1⟩
  | m + 2 =>
    rw [enteredFrom, decide_eq_true_iff, show (lo + (m + 2 : ℕ) - 2 - lo).toNat = m by omega,
      show lo + (m + 2 : ℕ) - 1 = lo + m + 1 by push_cast; ring, show lo + (m + 2 : ℕ) = lo + m + 2 by push_cast; ring]
    exact and_congr_right fun _ => ⟨fun h h' => h h'.2, fun h h' => h ⟨by omega, h'⟩⟩

theorem Entered.active (h : Entered t lo j) : 0 ≤ t j := (entered_iff.mp h).2.1.2

theorem Entered.before (h : Entered t lo j) : t (j - 1) < 0 := (entered_iff.mp h).2.1.1

theorem not_entered_of_inactive (h : t j < 0) : ¬ Entered t lo j := fun h' => absurd h (not_lt.mpr h'.active)

/-! ## The inner loops -/

/-- A loop that goes on while `p` holds, to one place behind the line at most. -/
theorem skip_ok {f : ℕ → ℤ → Except Fault ℤ} {p : ℤ → Prop} [DecidablePred p]
    (hf : ∀ fuel j, f (fuel + 1) j = if p j ∧ j ≤ n then f fuel (j + 1) else .ok j) (m : ℕ) (hm : n + 1 - j < m) :
    ∃ j', (∀ fuel, m < fuel → f fuel j = .ok j') ∧ j ≤ j' ∧ (∀ c, j ≤ c → c < j' → p c) ∧ (j' < n → ¬ p j') := by
  induction m generalizing j with
  | zero =>
    refine ⟨j, fun fuel hfuel => ?_, le_rfl, fun c h1 h2 => absurd h1 (not_le.mpr h2), fun h => by omega⟩
    obtain ⟨fuel, rfl⟩ : ∃ k, fuel = k + 1 := ⟨fuel - 1, by omega⟩
    rw [hf, if_neg (by omega)]
  | succ m ih =>
    by_cases hgo : p j ∧ j ≤ n
    · obtain ⟨j', hrun, hle, hp, hend⟩ := ih (j := j + 1) (by omega)
      refine ⟨j', fun fuel hfuel => ?_, by omega, fun c h1 h2 => ?_, hend⟩
      · obtain ⟨fuel, rfl⟩ : ∃ k, fuel = k + 1 := ⟨fuel - 1, by omega⟩
        rw [hf, if_pos hgo]
        exact hrun fuel (by omega)
      · rcases h1.eq_or_lt with rfl | h
        · exact hgo.1
        · exact hp c h h2
    · refine ⟨j, fun fuel hfuel => ?_, le_rfl, fun c h1 h2 => absurd h1 (not_le.mpr h2), fun h hp => hgo ⟨hp, h.le⟩⟩
      obtain ⟨fuel, rfl⟩ : ∃ k, fuel = k + 1 := ⟨fuel - 1, by omega⟩
      rw [hf, if_neg hgo]

theorem skipInactive_ok (m : ℕ) (hm : n + 1 - j < m) : ∃ j', (∀ fuel, m < fuel → skipInactive t n fuel j = .ok j') ∧ j ≤ j' ∧
    (∀ c, j ≤ c → c < j' → t c < 0) ∧ (j' < n → 0 ≤ t j') := by
  obtain ⟨j', hrun, hle, hneg, hend⟩ := skip_ok (f := skipInactive t n) (p := fun j => t j < 0) (fun _ _ => rfl) m hm
  exact ⟨j', hrun, hle, hneg, fun h => not_lt.mp (hend h)⟩

theorem skipActive_ok (m : ℕ) (hm : n + 1 - j < m) : ∃ j', (∀ fuel, m < fuel → skipActive t n fuel j = .ok j') ∧ j ≤ j' ∧
    (∀ c, j ≤ c → c < j' → 0 ≤ t (c + 1)) ∧ (j' < n → t (j' + 1) < 0) := by
  obtain ⟨j', hrun, hle, hpos, hend⟩ := skip_ok (f := skipActive t n) (p := fun j => t (j + 1) ≥ 0) (fun _ _ => rfl) m hm
  exact ⟨j', hrun, hle, hpos, fun h => not_le.mp (hend h)⟩

/-! ## The machine -/

theorem lineStep_eq_self (hentered : ¬ Entered t lo j) (hleaves : ¬ Leaves t lo j) : lineStep t lo low high s j = s := by
  unfold lineStep
  rw [if_neg hentered, if_neg hleaves]

theorem foldl_lineStep_eq_self (l : List ℤ) (h : ∀ c ∈ l, ¬ Entered t lo c ∧ ¬ Leaves t lo c) :
    l.foldl (lineStep t lo low high) s = s := by
  induction l with
  | nil => rfl
  | cons c l ih =>
    obtain ⟨hentered, hleaves⟩ := h c List.mem_cons_self
    rw [List.foldl_cons, lineStep_eq_self hentered hleaves]
    exact ih fun d hd => h d (List.mem_cons_of_mem _ hd)

/-- What is known where a round starts. In the active state the scan may stand on an inactive column, behind a run of
one column. -/
def AtState (t : ℤ → ℤ) (lo j : ℤ) : LineState → Prop
  | .inactive => t j < 0 ∧ ¬ Entered t lo (j - 1)
  | .active => ¬ Entered t lo j ∧ (0 ≤ t j ∨ Entered t lo (j - 1))

/-- Nothing happens before the column that the inactive scan stops at. -/
theorem inactive_quiet (hat : AtState t lo j .inactive) {j' : ℤ} (hneg : ∀ c, j ≤ c → c < j' → t c < 0) (c : ℤ) (h1 : j ≤ c)
    (h2 : c < j') : ¬ Entered t lo c ∧ ¬ Leaves t lo c := by
  have hc := hneg c h1 h2
  refine ⟨not_entered_of_inactive hc, fun hleaves => ?_⟩
  rcases hleaves.2 with ⟨h, -⟩ | ⟨-, h⟩
  · exact absurd hc (not_lt.mpr h)
  · rcases h1.eq_or_lt with rfl | hlt
    · exact hat.2 h
    · exact absurd (hneg (c - 1) (by omega) (by omega)) (not_lt.mpr h.active)

/-- The active scan keeps to columns that it has not gone active at. -/
theorem active_quiet (hat : AtState t lo j .active) {j' : ℤ} (hpos : ∀ c, j ≤ c → c < j' → 0 ≤ t (c + 1)) (c : ℤ) (h1 : j ≤ c)
    (h2 : c ≤ j') : AtState t lo c .active := by
  obtain ⟨m, rfl⟩ := Int.le.dest h1
  induction m with
  | zero => simpa using hat
  | succ m ih =>
    obtain ⟨hnot, hor⟩ := ih (by omega) (by omega)
    have hnext := hpos (j + m) (by omega) (by omega)
    rw [show j + ((m + 1 : ℕ) : ℤ) = j + m + 1 by push_cast; ring]
    -- behind an active column, or behind one that has just been entered, nothing is entered
    refine ⟨fun h => ?_, Or.inl hnext⟩
    have hbefore := h.before
    rw [add_sub_cancel_right] at hbefore
    refine (entered_iff.mp h).2.2 ?_
    rw [show j + (m : ℤ) + 1 - 2 = j + m - 1 by ring]
    exact hor.resolve_left (not_le.mpr hbefore)

/-- The inactive scan enters the column that it stops at. -/
theorem inactive_enters (hlo : lo - 1 ≤ j) (hat : AtState t lo j .inactive) {j' : ℤ} (hle : j ≤ j')
    (hneg : ∀ c, j ≤ c → c < j' → t c < 0) (hactive : 0 ≤ t j') : Entered t lo j' := by
  have hlt : j < j' := by
    rcases hle.eq_or_lt with rfl | h
    · exact absurd hat.1 (not_lt.mpr hactive)
    · exact h
  refine entered_iff.mpr ⟨by omega, ⟨hneg _ (by omega) (by omega), hactive⟩, ?_⟩
  rcases (show j + 1 ≤ j' from hlt).eq_or_lt with rfl | h
  · rw [show j + 1 - 2 = j - 1 by ring]
    exact hat.2
  · exact not_entered_of_inactive (hneg _ (by omega) (by omega))

/-- The active scan leaves the column that it stops at. -/
theorem active_leaves (hat : AtState t lo j .active) (hafter : t (j + 1) < 0) : Leaves t lo j := by
  refine ⟨hafter, ?_⟩
  rcases le_or_gt 0 (t j) with h | h
  · exact Or.inl ⟨h, hat.1⟩
  · exact Or.inr ⟨h, hat.2.resolve_left (not_le.mpr h)⟩

theorem lineStep_entered (h : Entered t lo j) : lineStep t lo low high s j = low j (t j) s := by
  have hnot : ¬ Leaves t lo j := fun h' => h'.2.elim (fun h' => h'.2 h) fun h' => absurd h'.1 (not_lt.mpr h.active)
  unfold lineStep
  rw [if_pos h, if_neg hnot]

theorem lineStep_leaves (hnot : ¬ Entered t lo j) (h : Leaves t lo j) : lineStep t lo low high s j = high j (t j) s := by
  unfold lineStep
  rw [if_neg hnot, if_pos h]

/-- The next round starts one place behind the transition. -/
theorem atState_of_entered (h : Entered t lo j) : AtState t lo (j + 1) .active := by
  refine ⟨fun h' => ?_, Or.inr (by rwa [add_sub_cancel_right])⟩
  have hbefore := h'.before
  rw [add_sub_cancel_right] at hbefore
  exact absurd hbefore (not_lt.mpr h.active)

theorem atState_of_leaves (hnot : ¬ Entered t lo j) (h : Leaves t lo j) : AtState t lo (j + 1) .inactive :=
  ⟨h.1, by rwa [add_sub_cancel_right]⟩

theorem foldl_upto_split {f : σ → ℤ → σ} {j' : ℤ} (h : j ≤ j') (h' : j' < n) (hquiet : (upto j j').foldl f s = s) :
    (upto j n).foldl f s = (upto (j' + 1) n).foldl f (f s j') := by
  rw [← upto_append h h'.le, List.foldl_append, hquiet, upto_cons h', List.foldl_cons]

/-- A round that stops behind the line has done nothing. -/
theorem foldl_upto_quiet {j' : ℤ} (h' : n ≤ j') (hquiet : ∀ c, j ≤ c → c < j' → ¬ Entered t lo c ∧ ¬ Leaves t lo c) :
    (upto (j' + 1) n).foldl (lineStep t lo low high) s = (upto j n).foldl (lineStep t lo low high) s := by
  rw [upto_eq_nil (show n ≤ j' + 1 by omega), foldl_lineStep_eq_self (upto j n) fun c hc => ?_]
  · rfl
  · have hc' := mem_upto.mp hc
    exact hquiet c hc'.1 (by omega)

theorem foldl_lineStep_upto {j' : ℤ} (hquiet : ∀ c, j ≤ c → c < j' → ¬ Entered t lo c ∧ ¬ Leaves t lo c) :
    (upto j j').foldl (lineStep t lo low high) s = s :=
  foldl_lineStep_eq_self _ fun c hc => hquiet c (mem_upto.mp hc).1 (mem_upto.mp hc).2

theorem scanLine_end (hj : n ≤ j) (fuel : ℕ) (state : LineState) : scanLine t n low high (fuel + 1) state j s = .ok s := by
  cases state <;> exact if_neg (not_lt.mpr hj)

theorem scanLine_inactive (hj : j < n) (fuel : ℕ) : scanLine t n low high (fuel + 1) .inactive j s =
    skipInactive t n fuel j >>= fun j =>
      if j < n then scanLine t n low high fuel .active (j + 1) (if t j ≥ 0 then low j (t j) s else s)
      else scanLine t n low high fuel .inactive (j + 1) s := if_pos hj

theorem scanLine_active (hj : j < n) (fuel : ℕ) : scanLine t n low high (fuel + 1) .active j s =
    skipActive t n fuel j >>= fun j =>
      scanLine t n low high fuel .inactive (j + 1) (if j < n then high j (t j) s else s) := if_pos hj

/-- The scan of a line takes the step of each of its places. -/
theorem scanLine_ok (m : ℕ) (state : LineState) (hm : n + 2 - j < m) (hlo : lo - 1 ≤ j) (hat : j < n → AtState t lo j state)
    (fuel : ℕ) (hf : m < fuel) :
    scanLine t n low high fuel state j s = .ok ((upto j n).foldl (lineStep t lo low high) s) := by
  -- on the places that are left, of which a round takes at least one
  induction m generalizing state j s fuel with
  | zero =>
    obtain ⟨f, rfl⟩ : ∃ f, fuel = f + 1 := ⟨fuel - 1, by omega⟩
    rw [scanLine_end (by omega), upto_eq_nil (by omega)]
    rfl
  | succ m ih =>
    obtain ⟨f, rfl⟩ : ∃ f, fuel = f + 1 := ⟨fuel - 1, by omega⟩
    by_cases hj : j < n
    · cases state with
      | inactive =>
        obtain ⟨j', hrun, hle, hneg, hend⟩ := skipInactive_ok (t := t) (n := n) (j := j) m (by omega)
        have hquiet := inactive_quiet (hat hj) hneg
        rw [scanLine_inactive hj, bind_ok (hrun f (by omega))]
        by_cases hj' : j' < n
        · have hentered := inactive_enters hlo (hat hj) hle hneg (hend hj')
          rw [if_pos hj', if_pos (hend hj'), ih .active (by omega) (by omega) (fun _ => atState_of_entered hentered) f (by omega),
            foldl_upto_split hle hj' (foldl_lineStep_upto hquiet), lineStep_entered hentered]
        · rw [if_neg hj', ih .inactive (by omega) (by omega) (fun h => by omega) f (by omega),
            foldl_upto_quiet (not_lt.mp hj') hquiet]
      | active =>
        obtain ⟨j', hrun, hle, hpos, hend⟩ := skipActive_ok (t := t) (n := n) (j := j) m (by omega)
        have hquiet : ∀ c, j ≤ c → c < j' → ¬ Entered t lo c ∧ ¬ Leaves t lo c := fun c h1 h2 =>
          ⟨(active_quiet (hat hj) hpos c h1 h2.le).1, fun h => absurd h.1 (not_lt.mpr (hpos c h1 h2))⟩
        rw [scanLine_active hj, bind_ok (hrun f (by omega))]
        by_cases hj' : j' < n
        · have hat' := active_quiet (hat hj) hpos j' hle le_rfl
          have hleaves := active_leaves hat' (hend hj')
          rw [if_pos hj', ih .inactive (by omega) (by omega) (fun _ => atState_of_leaves hat'.1 hleaves) f (by omega),
            foldl_upto_split hle hj' (foldl_lineStep_upto hquiet), lineStep_leaves hat'.1 hleaves]
        · rw [if_neg hj', ih .inactive (by omega) (by omega) (fun h => by omega) f (by omega),
            foldl_upto_quiet (not_lt.mp hj') hquiet]
    · rw [scanLine_end (by omega), upto_eq_nil (by omega)]
      rfl

theorem scanLine_returns (t : ℤ → ℤ) (lo n : ℤ) (low high : ℤ → ℤ → σ → σ) (s : σ) :
    Returns (fun fuel => scanLine t n low high fuel (startState (t (lo - 1))) (lo - 1) s)
      ((upto (lo - 1) n).foldl (lineStep t lo low high) s) := by
  have hnot : ∀ c, c < lo → ¬ Entered t lo c := fun c hc h => absurd h.1 (not_le.mpr hc)
  have hat : AtState t lo (lo - 1) (startState (t (lo - 1))) := by
    unfold startState
    split_ifs with h
    · exact ⟨h, hnot _ (by omega)⟩
    · exact ⟨hnot _ (by omega), Or.inl (not_lt.mp h)⟩
  exact ⟨(n + 4 - lo).toNat + 1, fun fuel hf =>
    scanLine_ok ((n + 4 - lo).toNat) _ (by omega) le_rfl (fun _ => hat) fuel (by omega)⟩

end

end ParFlow
