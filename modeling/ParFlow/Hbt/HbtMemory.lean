import ParFlow.Hbt.HbtDictionary

/-! An insertion changes finitely many places of the memory, so that a place for the next element is always left. -/

namespace ParFlow.Hbt

open HeapTree FuelRun

variable {α : Type} {κ : Type} [LinearOrder κ] {compare : α → α → ℤ} {key : α → κ}

/-- The memories differ at finitely many places. -/
def FinDiff (h h' : Heap (Label α)) : Prop := {a | h a ≠ h' a}.Finite

theorem FinDiff.refl (h : Heap (Label α)) : FinDiff h h := by
  simp [FinDiff]

theorem FinDiff.trans {h h' h'' : Heap (Label α)} (h₁ : FinDiff h h') (h₂ : FinDiff h' h'') : FinDiff h h'' := by
  apply (h₁.union h₂).subset
  intro a ha
  by_contra hn
  simp only [Set.mem_union, Set.mem_ofPred_eq, not_or, not_not] at hn
  exact ha (hn.1.trans hn.2)

theorem finDiff_update (h : Heap (Label α)) (a : Addr) (e : Option (Element α)) : FinDiff h (Function.update h a e) := by
  apply (Set.finite_singleton a).subset
  intro b hb
  by_contra hne
  exact hb (Function.update_of_ne hne _ _).symm

theorem finDiff_modify {h h' : Heap (Label α)} {p : Option Addr} {f : Element α → Element α} (hm : modify h p f = .ok h') :
    FinDiff h h' := by
  unfold modify at hm
  split at hm
  · cases hm
  · split at hm
    · cases hm
    · cases hm
      exact finDiff_update _ _ _

theorem finDiff_adjustPath {obj : α} {inserted : Option Addr} {fuel : ℕ} {temp : Option Addr} {h h' : Heap (Label α)}
    (hm : adjustPath compare obj inserted fuel temp h = .ok h') : FinDiff h h' := by
  induction fuel generalizing temp h with
  | zero => cases hm
  | succ fuel ih =>
    unfold adjustPath at hm
    split at hm
    · cases hm
      exact FinDiff.refl _
    · obtain ⟨n, -, hm⟩ := bind_eq_ok hm
      dsimp only at hm
      split at hm
      · obtain ⟨h₁, h₁m, hm⟩ := bind_eq_ok hm
        exact (finDiff_modify h₁m).trans (ih hm)
      · split at hm
        · obtain ⟨h₁, h₁m, hm⟩ := bind_eq_ok hm
          exact (finDiff_modify h₁m).trans (ih hm)
        · exact ih hm

theorem finDiff_rotateSingle {h h' : Heap (Label α)} {d : Dir} {e son : Option Addr} (hm : rotateSingle h d e son = .ok h') :
    FinDiff h h' := by
  obtain ⟨s, -, hm⟩ := bind_eq_ok hm
  obtain ⟨h₁, h₁m, hm⟩ := bind_eq_ok hm
  exact (finDiff_modify h₁m).trans (finDiff_modify hm)

theorem finDiff_insertRotateDouble {h h' : Heap (Label α)} {d : Dir} {rebalance son temp : Option Addr}
    (hm : insertRotateDouble h d rebalance son temp = .ok h') : FinDiff h h' := by
  obtain ⟨t, -, hm⟩ := bind_eq_ok hm
  obtain ⟨h₁, h₁m, hm⟩ := bind_eq_ok hm
  obtain ⟨h₂, h₂m, hm⟩ := bind_eq_ok hm
  obtain ⟨t', -, hm⟩ := bind_eq_ok hm
  obtain ⟨h₃, h₃m, hm⟩ := bind_eq_ok hm
  exact (finDiff_modify h₁m).trans ((finDiff_modify h₂m).trans ((finDiff_modify h₃m).trans (finDiff_modify hm)))

theorem finDiff_insertDoubleBalances {h h' : Heap (Label α)} {d : Dir} {rebalance son temp : Option Addr}
    (hm : insertDoubleBalances h d rebalance son temp = .ok h') : FinDiff h h' := by
  obtain ⟨t, -, hm⟩ := bind_eq_ok hm
  obtain ⟨h₁, h₁m, hm⟩ := bind_eq_ok hm
  obtain ⟨h₂, h₂m, hm⟩ := bind_eq_ok hm
  exact (finDiff_modify h₁m).trans ((finDiff_modify h₂m).trans (finDiff_modify hm))

theorem finDiff_insertRotate {h : Heap (Label α)} {d : Dir} {rebalance son inserted : Option Addr}
    {r : Heap (Label α) × Option Addr} (hm : insertRotate h d rebalance son inserted = .ok r) : FinDiff h r.1 := by
  obtain ⟨s, -, hm⟩ := bind_eq_ok hm
  split at hm
  · obtain ⟨h₁, h₁m, hm⟩ := bind_eq_ok hm
    obtain ⟨h₂, h₂m, hm⟩ := bind_eq_ok hm
    obtain ⟨h₃, h₃m, hm⟩ := bind_eq_ok hm
    cases hm
    exact (finDiff_rotateSingle h₁m).trans ((finDiff_modify h₂m).trans (finDiff_modify h₃m))
  · split at hm
    · obtain ⟨h₁, h₁m, hm⟩ := bind_eq_ok hm
      obtain ⟨h₂, h₂m, hm⟩ := bind_eq_ok hm
      cases hm
      exact (finDiff_insertRotateDouble h₁m).trans (finDiff_insertDoubleBalances h₂m)
    · cases hm
      exact FinDiff.refl h

theorem finDiff_insertRebalance {T T' : HBT α} {d : Dir} {father rebalance son inserted : Option Addr}
    (hm : insertRebalance T d father rebalance son inserted = .ok T') : FinDiff T.heap T'.heap := by
  obtain ⟨r, -, hm⟩ := bind_eq_ok hm
  split at hm
  · obtain ⟨h₁, h₁m, hm⟩ := bind_eq_ok hm
    cases hm
    exact finDiff_modify h₁m
  · split at hm
    · obtain ⟨h₁, h₁m, hm⟩ := bind_eq_ok hm
      cases hm
      exact finDiff_modify h₁m
    · obtain ⟨⟨h₁, temp⟩, h₁m, hm⟩ := bind_eq_ok hm
      cases father with
      | none =>
        cases hm
        exact finDiff_insertRotate h₁m
      | some f =>
        obtain ⟨e, -, hm⟩ := bind_eq_ok hm
        obtain ⟨h₂, h₂m, hm⟩ := bind_eq_ok hm
        cases hm
        exact (finDiff_insertRotate h₁m).trans (finDiff_modify h₂m)

theorem finDiff_hbtInsert {fuel : ℕ} {cell : Option Addr} {obj : α} {T T' : HBT α} {ret : InsertRet}
    (hm : hbtInsert compare fuel cell obj T = .ok (T', ret)) : FinDiff T.heap T'.heap := by
  unfold hbtInsert at hm
  split at hm
  · split at hm
    · cases hm
      exact FinDiff.refl _
    · cases hm
      exact finDiff_update _ _ _
  · obtain ⟨place, -, hm⟩ := bind_eq_ok hm
    split at hm
    · cases hm
      exact FinDiff.refl _
    · split at hm
      · cases hm
        exact FinDiff.refl _
      · obtain ⟨h₁, h₁m, hm⟩ := bind_eq_ok hm
        obtain ⟨r, -, hm⟩ := bind_eq_ok hm
        obtain ⟨h₂, h₂m, hm⟩ := bind_eq_ok hm
        obtain ⟨T₁, h₃m, hm⟩ := bind_eq_ok hm
        cases hm
        exact (finDiff_update _ _ _).trans ((finDiff_modify h₁m).trans
          ((finDiff_adjustPath h₂m).trans (finDiff_insertRebalance h₃m)))

/-- The memory of a tree is finite. -/
theorem Inserted.finite {objs : List α} {T : HBT α} (h : Inserted compare objs T) : FinDiff (fun _ => none) T.heap := by
  induction h with
  | new mallocFlag => exact FinDiff.refl _
  | insert _ _ hret ih =>
    obtain ⟨n, hn⟩ := hret
    exact ih.trans (finDiff_hbtInsert (hn n le_rfl))

/-- All objects of a list can be inserted. -/
theorem exists_inserted (hcmp : Compares compare key) (objs : List α) : ∃ T, Inserted compare objs T := by
  induction objs using List.reverseRecOn with
  | nil => exact ⟨_, .new false⟩
  | append_singleton objs x ih =>
    obtain ⟨T, hT⟩ := ih
    obtain ⟨a, ha⟩ := hT.finite.exists_notMem
    have hfree : T.heap a = none := by
      simpa [eq_comm] using ha
    have hcell : ∀ b, some a = some b → T.heap b = none := by
      rintro b ⟨⟩
      exact hfree
    obtain ⟨-, -, -, hinsert⟩ := inserted_dictionary compare key hcmp objs T hT
    obtain ⟨T', ret, hret, -, -, hmem⟩ := hinsert x (some a) hcell
    have hne : ret ≠ .memoryError := fun hr => absurd (hmem hr).1 (by simp)
    refine ⟨T', ?_⟩
    have hnext := hT.insert hcell hret
    rwa [if_neg hne] at hnext

end ParFlow.Hbt
