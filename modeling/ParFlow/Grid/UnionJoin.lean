import ParFlow.Lib.Cover
import ParFlow.Grid.SubgridCells
import ParFlow.Grid.GridDefs

/-! The joins only merge blocks. Each table value stands for a box of blocks;
one step of a join moves the box at the current position into the box that
started the run, so every join coarsens the family of boxes. -/

namespace ParFlow.Union

open Cover

variable {n : Axis → ℕ} {P Q e : Axis → ℕ} {a b : Axis}

/-! ## Places in the table -/

def InRange (n P : Axis → ℕ) : Prop := ∀ a, P a < n a

theorem blockAt_injective (hP : InRange n P) (hQ : InRange n Q)
    (h : blockAt n P = blockAt n Q) : P = Q := by
  unfold blockAt at h
  have hx : P .x = Q .x := by
    have := congrArg (· % n .x) h
    simpa [Nat.mul_add_mod, Nat.mod_eq_of_lt (hP .x), Nat.mod_eq_of_lt (hQ .x),
      Nat.add_comm, Nat.add_mul_mod_self_right] using this
  rw [hx, Nat.add_right_cancel_iff] at h
  have h' := Nat.eq_of_mul_eq_mul_right (Nat.zero_lt_of_lt (hP .x)) h
  have hy : P .y = Q .y := by
    have := congrArg (· % n .y) h'
    simpa [Nat.mod_eq_of_lt (hP .y), Nat.mod_eq_of_lt (hQ .y), Nat.add_comm,
      Nat.add_mul_mod_self_right] using this
  rw [hy, Nat.add_right_cancel_iff] at h'
  have hz := Nat.eq_of_mul_eq_mul_right (Nat.zero_lt_of_lt (hP .y)) h'
  funext a
  cases a <;> assumption

/-! ## Extents in a value -/

/-- The value of a block with the given extents. -/
def code (n e : Axis → ℕ) : ℕ := e .x * factor n .x + e .y * factor n .y + e .z * factor n .z

theorem extent_code (h : ∀ a, e a ≤ n a) : extent n (code n e) = e := by
  have hx := h .x
  have hy := h .y
  have hlow : e .x + e .y * (n .x + 1) < (n .y + 1) * (n .x + 1) := by nlinarith
  funext a
  cases a with
  | x =>
    simp only [extent, code, factor, Nat.mul_one]
    rw [← Nat.mul_assoc, Nat.add_mul_mod_self_right, Nat.add_mul_mod_self_right,
      Nat.mod_eq_of_lt (by omega)]
  | y =>
    simp only [extent, code, factor, Nat.mul_one]
    rw [Nat.add_mul_mod_self_right, Nat.mod_eq_of_lt hlow, Nat.add_mul_div_right _ _ (by omega),
      Nat.div_eq_of_lt (by omega), Nat.zero_add]
  | z =>
    simp only [extent, code, factor, Nat.mul_one]
    rw [Nat.add_mul_div_right _ _ (by positivity), Nat.div_eq_of_lt hlow, Nat.zero_add]

theorem code_pos (h : ∀ a, 1 ≤ e a) : code n e ≠ 0 := by
  have := h .x
  simp only [code, factor]
  omega

/-- Adding the factor of an axis lengthens the block by one along that axis. -/
theorem code_update_add (n e : Axis → ℕ) (a : Axis) (m : ℕ) :
    code n (Function.update e a m) + factor n a = code n (Function.update e a (m + 1)) := by
  cases a <;> simp [code, factor, Function.update] <;> ring

/-- A block at `P` with extents `e` stays inside the table. -/
def Fits (n P e : Axis → ℕ) : Prop := ∀ a, 1 ≤ e a ∧ P a + e a ≤ n a

theorem Fits.inRange (h : Fits n P e) : InRange n P := fun a => by have := h a; omega

theorem Fits.extent (h : Fits n P e) : extent n (code n e) = e :=
  extent_code fun a => by have := h a; omega

/-- Every block of the table is empty or holds extents that fit, with extent one on the axes `U`. -/
def WellCoded (n : Axis → ℕ) (U : Axis → Prop) (block : ℕ → ℕ) : Prop :=
  ∀ P, InRange n P → block (blockAt n P) = 0 ∨
    ∃ e, Fits n P e ∧ block (blockAt n P) = code n e ∧ ∀ b, U b → e b = 1

/-! ## Boxes of blocks -/

/-- The positions covered by the block at `P`. -/
def blockBox (n : Axis → ℕ) (block : ℕ → ℕ) (P : Axis → ℕ) : Set (Axis → ℕ) :=
  {t | InRange n P ∧ ∀ a, P a ≤ t a ∧ t a < P a + extent n (block (blockAt n P)) a}

theorem mem_blockBox_code {block : ℕ → ℕ} {t : Axis → ℕ} (h : Fits n P e)
    (hb : block (blockAt n P) = code n e) :
    t ∈ blockBox n block P ↔ ∀ a, P a ≤ t a ∧ t a < P a + e a := by
  simp only [blockBox, Set.mem_ofPred_eq, hb, h.extent]
  exact ⟨fun ht => ht.2, fun ht => ⟨h.inRange, ht⟩⟩

theorem blockBox_zero {block : ℕ → ℕ} (hb : block (blockAt n P) = 0) :
    blockBox n block P = ∅ := by
  refine Set.eq_empty_of_forall_notMem fun t ht => ?_
  have := ht.2 .x
  simp only [hb, extent, Nat.zero_mod] at this
  omega

theorem blockBox_congr {block block' : ℕ → ℕ}
    (h : InRange n P → block' (blockAt n P) = block (blockAt n P)) :
    blockBox n block' P = blockBox n block P := by
  ext t
  simp only [blockBox, Set.mem_ofPred_eq]
  exact and_congr_right fun hP => by rw [h hP]

/-! ## One line -/

section GrowRun

variable {f run index i : ℕ} {block : ℕ → ℕ}

theorem growRun_run (h : run ≠ index) : growRun f block run index run = block run + f := by
  simp only [growRun, Function.update_self, Function.update_of_ne h]

theorem growRun_index (h : run ≠ index) : growRun f block run index index = 0 := by
  simp only [growRun, Function.update_of_ne h.symm, Function.update_self]

theorem growRun_of_ne (hr : i ≠ run) (hi : i ≠ index) : growRun f block run index i = block i := by
  simp only [growRun, Function.update_of_ne hr, Function.update_of_ne hi]

end GrowRun

/-- The position on the line through `P` along `a` with coordinate `q`. -/
abbrev onLine (P : Axis → ℕ) (a : Axis) (q : ℕ) : Axis → ℕ := Function.update P a q

/-- The other coordinates of the line are in range. -/
def LineInRange (n P : Axis → ℕ) (a : Axis) : Prop := ∀ b, b ≠ a → P b < n b

theorem inRange_onLine (h : LineInRange n P a) {q : ℕ} (hq : q < n a) :
    InRange n (onLine P a q) := by
  intro b
  by_cases hb : b = a
  · subst hb
    simpa using hq
  · rw [onLine, Function.update_of_ne hb]
    exact h b hb

theorem onLine_ne {q q' : ℕ} (h : q ≠ q') : onLine P a q ≠ onLine P a q' := by
  intro heq
  have := congrFun heq a
  simp only [onLine, Function.update_self] at this
  exact h this

/-- What holds when the positions below `m` of a line have been worked off. -/
structure LineInv (n : Axis → ℕ) (U : Axis → Prop) (P : Axis → ℕ) (a : Axis) (block : ℕ → ℕ)
    (m : ℕ) (st : JoinState) : Prop where
  ahead : ∀ q, m ≤ q → q < n a → st.block (blockAt n (onLine P a q)) = block (blockAt n (onLine P a q))
  off : ∀ Q, InRange n Q → (∃ b, b ≠ a ∧ Q b ≠ P b) → st.block (blockAt n Q) = block (blockAt n Q)
  coded : WellCoded n U st.block
  coarse : Coarsens (blockBox n block) (blockBox n st.block)
  run : st.join = true → ∃ s e, s < m ∧ st.tmp0 = blockAt n (onLine P a s) ∧ st.tmp1 = code n e ∧
    e a = 1 ∧ Fits n (onLine P a s) (Function.update e a (m - s)) ∧ (∀ b, U b → e b = 1) ∧
    st.block st.tmp0 = code n (Function.update e a (m - s))

/-- The block at `q` moves into the run that starts at `s`. -/
theorem coarsens_join {block block' : ℕ → ℕ} {s q : ℕ} (hP : LineInRange n P a) (hsq : s < q)
    (hq : q < n a) (hea : e a = 1) (hs : Fits n (onLine P a s) (Function.update e a (q - s)))
    (hs' : Fits n (onLine P a s) (Function.update e a (q + 1 - s)))
    (hbs : block (blockAt n (onLine P a s)) = code n (Function.update e a (q - s)))
    (hbq : block (blockAt n (onLine P a q)) = code n e)
    (hbs' : block' (blockAt n (onLine P a s)) = code n (Function.update e a (q + 1 - s)))
    (hbq' : block' (blockAt n (onLine P a q)) = 0)
    (hne : ∀ R, InRange n R → R ≠ onLine P a s → R ≠ onLine P a q →
      block' (blockAt n R) = block (blockAt n R)) :
    Coarsens (blockBox n block) (blockBox n block') := by
  classical
  have hfq : Fits n (onLine P a q) e := by
    intro b
    by_cases hb : b = a
    · subst hb
      simp only [onLine, Function.update_self]
      omega
    · have := hs b
      simpa only [onLine, Function.update_of_ne hb] using this
  refine coarsens_merge (onLine_ne (by omega)) ?_ (blockBox_zero hbq') fun R hRs hRq =>
    blockBox_congr fun hR => hne R hR hRs hRq
  ext t
  rw [Set.mem_union, mem_blockBox_code hs' hbs', mem_blockBox_code hs hbs, mem_blockBox_code hfq hbq]
  -- only the axis of the join tells the two boxes apart
  have hbox : ∀ (r m : ℕ), (∀ b, onLine P a r b ≤ t b ∧ t b < onLine P a r b + Function.update e a m b) ↔
      (∀ b, b ≠ a → P b ≤ t b ∧ t b < P b + e b) ∧ r ≤ t a ∧ t a < r + m := by
    intro r m
    constructor
    · intro h
      refine ⟨fun b hb => ?_, by simpa [onLine] using h a⟩
      simpa [onLine, Function.update_of_ne hb] using h b
    · rintro ⟨h, ha⟩ b
      by_cases hb : b = a
      · subst hb
        simpa [onLine] using ha
      · simpa [onLine, Function.update_of_ne hb] using h b hb
  have he : Function.update e a 1 = e := by rw [← hea, Function.update_eq_self]
  have hq1 := hbox q 1
  rw [he] at hq1
  rw [hbox, hbox, hq1, ← and_or_left]
  exact and_congr_right fun _ => by omega

/-- The block at `m` continues the run. -/
theorem LineInv.grow {U : Axis → Prop} {block : ℕ → ℕ} {m : ℕ} {st : JoinState}
    (hP : LineInRange n P a) (hm : m < n a) (hUa : ¬ U a) (h : LineInv n U P a block m st)
    (hj : st.join = true) (hv : st.block (blockAt n (onLine P a m)) = st.tmp1) :
    LineInv n U P a block (m + 1)
      { st with block := growRun (factor n a) st.block st.tmp0 (blockAt n (onLine P a m)) } := by
  obtain ⟨s, e, hsm, h0, h1, hea, hfit, hU, hval⟩ := h.run hj
  have hrm := inRange_onLine hP hm
  have hrs := hfit.inRange
  have hne : st.tmp0 ≠ blockAt n (onLine P a m) := by
    rw [h0]
    exact fun heq => onLine_ne (P := P) (a := a) hsm.ne (blockAt_injective hrs hrm heq)
  have hfit' : Fits n (onLine P a s) (Function.update e a (m + 1 - s)) := by
    intro b
    by_cases hb : b = a
    · subst hb
      simp only [onLine, Function.update_self]
      omega
    · have := hfit b
      simpa only [onLine, Function.update_of_ne hb] using this
  have hgrown : growRun (factor n a) st.block st.tmp0 (blockAt n (onLine P a m)) st.tmp0 =
      code n (Function.update e a (m + 1 - s)) := by
    rw [growRun_run hne, hval, code_update_add]
    congr 2
    omega
  have hother : ∀ Q, InRange n Q → Q ≠ onLine P a s → Q ≠ onLine P a m →
      growRun (factor n a) st.block st.tmp0 (blockAt n (onLine P a m)) (blockAt n Q) =
        st.block (blockAt n Q) := by
    intro Q hQ hQs hQm
    refine growRun_of_ne (fun heq => hQs (blockAt_injective hQ hrs (h0 ▸ heq))) fun heq => ?_
    exact hQm (blockAt_injective hQ hrm heq)
  refine ⟨fun q hq hqn => ?_, fun Q hQ ⟨b, hb, hQb⟩ => ?_, fun Q hQ => ?_, ?_, fun _ => ?_⟩
  · exact (hother _ (inRange_onLine hP hqn) (onLine_ne (by omega)) (onLine_ne (by omega))).trans
      (h.ahead q (by omega) hqn)
  · have hQne : ∀ q, Q ≠ onLine P a q := by
      intro q heq
      exact hQb (by rw [heq, onLine, Function.update_of_ne hb])
    exact (hother Q hQ (hQne s) (hQne m)).trans (h.off Q hQ ⟨b, hb, hQb⟩)
  · by_cases hQs : Q = onLine P a s
    · refine Or.inr ⟨_, hQs ▸ hfit', by rw [hQs, ← h0]; exact hgrown, fun b hb => ?_⟩
      have hba : b ≠ a := fun hba => hUa (hba ▸ hb)
      rw [Function.update_of_ne hba]
      exact hU b hb
    by_cases hQm : Q = onLine P a m
    · exact Or.inl (by rw [hQm]; exact growRun_index hne)
    · dsimp only
      rw [hother Q hQ hQs hQm]
      exact h.coded Q hQ
  · exact h.coarse.trans (coarsens_join hP hsm hm hea hfit hfit' (h0 ▸ hval) (hv.trans h1)
      (h0 ▸ hgrown) (growRun_index hne) hother)
  · exact ⟨s, e, by omega, h0, h1, hea, hfit', hU, hgrown⟩

theorem LineInv.step {U : Axis → Prop} {block : ℕ → ℕ} {m : ℕ} {st : JoinState}
    (hP : LineInRange n P a) (hm : m < n a) (hUa : ¬ U a)
    (hunit : ∀ e, Fits n (onLine P a m) e → block (blockAt n (onLine P a m)) = code n e → e a = 1)
    (h : LineInv n U P a block m st) :
    LineInv n U P a block (m + 1) (joinStep (factor n a) st (blockAt n (onLine P a m))) := by
  unfold joinStep
  split_ifs with h1 h2
  · exact h.grow hP hm hUa h1.1 h1.2
  · -- a new run starts at `m`
    rcases h.coded _ (inRange_onLine hP hm) with hz | ⟨e, hfit, hc, hU⟩
    · exact absurd hz h2
    have hea := hunit e hfit (h.ahead m le_rfl hm ▸ hc)
    have hupd : Function.update e a (m + 1 - m) = e := by
      rw [Nat.add_sub_cancel_left, ← hea, Function.update_eq_self]
    refine ⟨fun q hq hqn => h.ahead q (by omega) hqn, h.off, h.coded, h.coarse, fun _ => ?_⟩
    exact ⟨m, e, by omega, rfl, hc, hea, by rw [hupd]; exact hfit, hU, by rw [hupd]; exact hc⟩
  · refine ⟨fun q hq hqn => h.ahead q (by omega) hqn, h.off, h.coded, h.coarse, fun hj => ?_⟩
    simp at hj

/-- Along `a` every non-empty block of the line still has extent one. -/
def UnitLine (n P : Axis → ℕ) (a : Axis) (block : ℕ → ℕ) : Prop :=
  ∀ q < n a, ∀ e, Fits n (onLine P a q) e → block (blockAt n (onLine P a q)) = code n e → e a = 1

theorem joinLine_inv {U : Axis → Prop} {st : JoinState} (hP : LineInRange n P a) (hUa : ¬ U a)
    (hunit : UnitLine n P a st.block) (hcoded : WellCoded n U st.block) :
    LineInv n U P a st.block (n a)
      (joinLine (factor n a) st ((List.range (n a)).map fun q => blockAt n (onLine P a q))) := by
  have key : ∀ m ≤ n a, LineInv n U P a st.block m
      (joinLine (factor n a) st ((List.range m).map fun q => blockAt n (onLine P a q))) := by
    intro m
    induction m with
    | zero =>
      intro _
      exact ⟨fun _ _ _ => rfl, fun _ _ _ => rfl, hcoded, Coarsens.refl _, fun hj => by simp [joinLine] at hj⟩
    | succ m ih =>
      intro hm
      rw [List.range_succ, List.map_append, joinLine, List.foldl_append]
      exact (ih (by omega)).step hP hm hUa (hunit m hm)
  exact key (n a) le_rfl

/-! ## One axis -/

/-- Two lines along `a` are different. -/
def OffLine (a : Axis) (P Q : Axis → ℕ) : Prop := ∃ b, b ≠ a ∧ Q b ≠ P b

theorem joinLines_coarsens {U : Axis → Prop} (hUa : ¬ U a) (Ps : List (Axis → ℕ))
    (hoff : Ps.Pairwise (OffLine a)) (st : JoinState) (hP : ∀ P ∈ Ps, LineInRange n P a)
    (hunit : ∀ P ∈ Ps, UnitLine n P a st.block) (hcoded : WellCoded n U st.block) :
    let st' := (Ps.map fun P => (List.range (n a)).map fun q => blockAt n (onLine P a q)).foldl
      (joinLine (factor n a)) st
    Coarsens (blockBox n st.block) (blockBox n st'.block) ∧ WellCoded n U st'.block := by
  induction Ps generalizing st with
  | nil => exact ⟨Coarsens.refl _, hcoded⟩
  | cons P Ps ih =>
    rw [List.pairwise_cons] at hoff
    have hline := joinLine_inv (hP P List.mem_cons_self) hUa (hunit P List.mem_cons_self) hcoded
    -- the other lines are untouched, so they are still of extent one
    have hunit' : ∀ Q ∈ Ps, UnitLine n Q a (joinLine (factor n a) st
        ((List.range (n a)).map fun q => blockAt n (onLine P a q))).block := by
      intro Q hQ q hq e hfit hb
      obtain ⟨b, hba, hb'⟩ := hoff.1 Q hQ
      rw [hline.off _ hfit.inRange ⟨b, hba, by rwa [onLine, Function.update_of_ne hba]⟩] at hb
      exact hunit Q (List.mem_cons_of_mem _ hQ) q hq e hfit hb
    have hrec := ih hoff.2 _ (fun Q hQ => hP Q (List.mem_cons_of_mem _ hQ)) hunit' hline.coded
    exact ⟨hline.coarse.trans hrec.1, hrec.2⟩

/-- A position on each line of a join, in the order of its outer loops. -/
def lineBases (n : Axis → ℕ) : Axis → List (Axis → ℕ)
  | .x => (List.range (n .z)).flatMap fun k => (List.range (n .y)).map fun j => pos 0 j k
  | .y => (List.range (n .z)).flatMap fun k => (List.range (n .x)).map fun i => pos i 0 k
  | .z => (List.range (n .x)).flatMap fun i => (List.range (n .y)).map fun j => pos i j 0

@[simp] theorem onLine_pos_x (i j k q : ℕ) : onLine (pos i j k) .x q = pos q j k := by
  funext a
  cases a <;> rfl

@[simp] theorem onLine_pos_y (i j k q : ℕ) : onLine (pos i j k) .y q = pos i q k := by
  funext a
  cases a <;> rfl

@[simp] theorem onLine_pos_z (i j k q : ℕ) : onLine (pos i j k) .z q = pos i j q := by
  funext a
  cases a <;> rfl

theorem lines_eq (n : Axis → ℕ) (a : Axis) : lines n a =
    (lineBases n a).map fun P => (List.range (n a)).map fun q => blockAt n (onLine P a q) := by
  cases a <;> simp [lines, lineBases, List.map_flatMap, Function.comp_def]

theorem lineInRange_of_mem_lineBases (h : P ∈ lineBases n a) : LineInRange n P a := by
  intro b hb
  cases a <;> simp only [lineBases, List.mem_flatMap, List.mem_map, List.mem_range] at h <;>
    obtain ⟨u, hu, v, hv, rfl⟩ := h <;> cases b <;> first | exact absurd rfl hb | assumption

/-- Bases that come from different outer loop indices lie on different lines. -/
theorem pairwise_offLine {m l : ℕ} {f : ℕ → ℕ → Axis → ℕ} {b c : Axis} (hb : b ≠ a) (hc : c ≠ a)
    (hfb : ∀ u v, f u v b = u) (hfc : ∀ u v, f u v c = v) :
    ((List.range m).flatMap fun u => (List.range l).map fun v => f u v).Pairwise (OffLine a) := by
  rw [List.pairwise_flatMap]
  refine ⟨fun u _ => ?_, ?_⟩
  · rw [List.pairwise_map]
    refine List.nodup_range.imp fun {v v'} hne => ⟨c, hc, ?_⟩
    rw [hfc, hfc]
    exact hne.symm
  · refine List.nodup_range.imp fun {u u'} hne P hP Q hQ => ?_
    obtain ⟨v, -, rfl⟩ := List.mem_map.mp hP
    obtain ⟨v', -, rfl⟩ := List.mem_map.mp hQ
    refine ⟨b, hb, ?_⟩
    rw [hfb, hfb]
    exact hne.symm

theorem lineBases_offLine (n : Axis → ℕ) (a : Axis) : (lineBases n a).Pairwise (OffLine a) := by
  cases a with
  | x => exact pairwise_offLine (b := .z) (c := .y) (by decide) (by decide) (fun _ _ => rfl) fun _ _ => rfl
  | y => exact pairwise_offLine (b := .z) (c := .x) (by decide) (by decide) (fun _ _ => rfl) fun _ _ => rfl
  | z => exact pairwise_offLine (b := .x) (c := .y) (by decide) (by decide) (fun _ _ => rfl) fun _ _ => rfl

/-- Joining along an axis whose extents are all one merges blocks and leaves the other extents. -/
theorem joinAxis_coarsens {U : Axis → Prop} (a : Axis) (st : JoinState)
    (hcoded : WellCoded n U st.block) (hUa : U a) :
    Coarsens (blockBox n st.block) (blockBox n (joinAxis n a st).block) ∧
      WellCoded n (fun b => U b ∧ b ≠ a) (joinAxis n a st).block := by
  rw [joinAxis, lines_eq]
  refine joinLines_coarsens (U := fun b => U b ∧ b ≠ a) (fun h => h.2 rfl) _ (lineBases_offLine n a) st
    (fun P hP => lineInRange_of_mem_lineBases hP) (fun P _ q _ e hfit hb => ?_) fun Q hQ => ?_
  · rcases hcoded _ hfit.inRange with hz | ⟨e', hfit', hb', hU⟩
    · rw [hb] at hz
      exact absurd hz (code_pos fun b => (hfit b).1)
    · have heq : e = e' := by rw [← hfit.extent, ← hb, hb', hfit'.extent]
      rw [heq]
      exact hU a hUa
  · exact (hcoded Q hQ).imp id fun ⟨e, hfit, hb, hU⟩ => ⟨e, hfit, hb, fun b h => hU b h.1⟩

/-- The three joins together. -/
theorem joinBlocks_coarsens (block : ℕ → ℕ) (hcoded : WellCoded n (fun _ => True) block) :
    Coarsens (blockBox n block) (blockBox n (joinBlocks n block)) ∧
      WellCoded n (fun _ => False) (joinBlocks n block) := by
  obtain ⟨cx, wx⟩ := joinAxis_coarsens .x ⟨block, false, 0, 0⟩ hcoded trivial
  obtain ⟨cy, wy⟩ := joinAxis_coarsens .y _ wx ⟨trivial, by decide⟩
  obtain ⟨cz, wz⟩ := joinAxis_coarsens .z _ wy ⟨⟨trivial, by decide⟩, by decide⟩
  refine ⟨cx.trans (cy.trans cz), fun Q hQ => ?_⟩
  exact (wz Q hQ).imp id fun ⟨e, hfit, hb, _⟩ => ⟨e, hfit, hb, fun _ h => h.elim⟩

end ParFlow.Union
