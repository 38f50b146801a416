import ParFlow.Hbt.HbtStore

/-! One turn of rebalancing: the rotations of an insertion and of a deletion replace a
subtree by a balanced one with the same elements. -/

namespace ParFlow.Hbt

open FuelRun HeapTree HTree

variable {α : Type} {h : Heap (Label α)} {d : Dir} {a b c : Addr} {u v w : Label α}

section Links

variable {p q r t : Option Addr}

/-- The single rotation of `a` and its son `b` on the side opposite to `d`. -/
theorem rotateSingle_ok (ha : h a = some (Node.ofDir d v p (some b)))
    (hb : h b = some (Node.ofDir d w q r)) (hab : a ≠ b) :
    ∃ h', rotateSingle h d.opp (some a) (some b) = .ok h' ∧ h' a = some (Node.ofDir d v p q) ∧
      h' b = some (Node.ofDir d w (some a) r) ∧ ∀ e, e ≠ a → e ≠ b → h' e = h e := by
  obtain ⟨h₁, e₁, a₁, o₁⟩ := setChild_ok ha d.opp q
  obtain ⟨h₂, e₂, b₂, o₂⟩ := setChild_ok ((o₁ b hab.symm).trans hb) d (some a)
  rw [Node.ofDir_setChild_opp] at a₁
  rw [Node.ofDir_setChild] at b₂
  refine ⟨h₂, ?_, (o₂ a hab).trans a₁, b₂, fun e h1 h2 => (o₂ e h2).trans (o₁ e h1)⟩
  simp only [rotateSingle, load_eq hb, Dir.opp_opp, Node.ofDir_child, bind, Except.bind, e₁, e₂]

theorem insertRotateDouble_ok (ha : h a = some (Node.ofDir d v p (some b)))
    (hb : h b = some (Node.ofDir d w (some c) t)) (hc : h c = some (Node.ofDir d u q r))
    (hab : a ≠ b) (hac : a ≠ c) (hbc : b ≠ c) :
    ∃ h', insertRotateDouble h d.opp (some a) (some b) (some c) = .ok h' ∧
      h' a = some (Node.ofDir d v p q) ∧ h' b = some (Node.ofDir d w r t) ∧
      h' c = some (Node.ofDir d u (some a) (some b)) ∧ ∀ e, e ≠ a → e ≠ b → e ≠ c → h' e = h e := by
  obtain ⟨h₁, e₁, b₁, o₁⟩ := setChild_ok hb d r
  obtain ⟨h₂, e₂, c₂, o₂⟩ := setChild_ok ((o₁ c hbc.symm).trans hc) d.opp (some b)
  obtain ⟨h₃, e₃, a₃, o₃⟩ := setChild_ok ((o₂ a hac).trans ((o₁ a hab).trans ha)) d.opp q
  obtain ⟨h₄, e₄, c₄, o₄⟩ := setChild_ok ((o₃ c hac.symm).trans c₂) d (some a)
  rw [Node.ofDir_setChild] at b₁
  rw [Node.ofDir_setChild_opp] at c₂ a₃ c₄
  rw [Node.ofDir_setChild] at c₄
  refine ⟨h₄, ?_, (o₄ a hac).trans a₃, ?_, c₄, fun e h1 h2 h3 => ?_⟩
  · simp only [insertRotateDouble, load_eq hc, load_eq c₂, Dir.opp_opp, Node.ofDir_child,
      Node.ofDir_child_opp, bind, Except.bind, e₁, e₂, e₃, e₄]
  · exact (o₄ b hbc).trans ((o₃ b hab.symm).trans ((o₂ b hbc).trans b₁))
  · exact (o₄ e h3).trans ((o₃ e h1).trans ((o₂ e h3).trans (o₁ e h2)))

theorem deleteRotateDouble_ok (ha : h a = some (Node.ofDir d v p (some b)))
    (hb : h b = some (Node.ofDir d w (some c) t)) (hc : h c = some (Node.ofDir d u q r))
    (hab : a ≠ b) (hac : a ≠ c) (hbc : b ≠ c) :
    ∃ h', deleteRotateDouble h d (some a) (some b) (some c) = .ok h' ∧
      h' a = some (Node.ofDir d v p q) ∧ h' b = some (Node.ofDir d w r t) ∧
      h' c = some (Node.ofDir d u (some a) (some b)) ∧ ∀ e, e ≠ a → e ≠ b → e ≠ c → h' e = h e := by
  obtain ⟨h₁, e₁, a₁, o₁⟩ := setChild_ok ha d.opp q
  obtain ⟨h₂, e₂, b₂, o₂⟩ := setChild_ok ((o₁ b hab.symm).trans hb) d r
  obtain ⟨h₃, e₃, c₃, o₃⟩ := setChild_ok ((o₂ c hbc.symm).trans ((o₁ c hac.symm).trans hc)) d (some a)
  obtain ⟨h₄, e₄, c₄, o₄⟩ := setChild_ok c₃ d.opp (some b)
  rw [Node.ofDir_setChild_opp] at a₁
  rw [Node.ofDir_setChild] at b₂ c₃ c₄
  rw [Node.ofDir_setChild_opp] at c₄
  refine ⟨h₄, ?_, ?_, ?_, c₄, fun e h1 h2 h3 => ?_⟩
  · simp only [deleteRotateDouble, load_eq hc, Node.ofDir_child, Node.ofDir_child_opp, bind,
      Except.bind, e₁, e₂, e₃, e₄]
  · exact (o₄ a hac).trans ((o₃ a hac).trans ((o₂ a hab).trans a₁))
  · exact (o₄ b hbc).trans ((o₃ b hbc).trans b₂)
  · exact (o₄ e h3).trans ((o₃ e h3).trans ((o₂ e h2).trans (o₁ e h1)))

end Links

/-! ## Subtrees -/

section Trees

variable {h' : Heap (Label α)} {s t x y z : ElementTree α}

theorem turned_setB {b : ℤ} (hr : Rep h (join d a v s t)) (hnd : (join d a v s t).addrs.Nodup)
    (ha : h' a = some (Node.ofDir d (v.withB b) s.ptr t.ptr)) (ho : ∀ e, e ≠ a → h' e = h e)
    (hb : HeightBalanced (join d a (v.withB b) s t)) :
    Turned h h' (join d a v s t) (join d a (v.withB b) s t) where
  rep := by
    obtain ⟨-, hs, ht⟩ := rep_join.mp hr
    obtain ⟨has, hat, -⟩ := nodup_join.mp hnd
    exact rep_join.mpr ⟨ha, hs.congr fun e he => ho e fun h => has (h ▸ he),
      ht.congr fun e he => ho e fun h => hat (h ▸ he)⟩
  perm := addrs_join.trans addrs_join.symm
  frame e he := ho e fun h => he (mem_addrs_join.mpr (Or.inl h))
  balanced := hb
  elems := by cases d <;> rfl

theorem turned_rotate {v' w' : Label α} (hr : Rep h (join d a v s (join d b w x y)))
    (hnd : (join d a v s (join d b w x y)).addrs.Nodup)
    (ha : h' a = some (Node.ofDir d v' s.ptr x.ptr)) (hb : h' b = some (Node.ofDir d w' (some a) y.ptr))
    (ho : ∀ e, e ≠ a → e ≠ b → h' e = h e) (hv : v'.obj = v.obj) (hw : w'.obj = w.obj)
    (hbal : HeightBalanced (join d b w' (join d a v' s x) y)) :
    Turned h h' (join d a v s (join d b w x y)) (join d b w' (join d a v' s x) y) where
  rep := hr.rotate hnd ha hb ho
  perm := addrs_rotate
  frame e he := by
    simp only [mem_addrs_join, not_or] at he
    exact ho e he.1 he.2.2.1
  balanced := hbal
  elems := elems_rotate hv hw

theorem turned_rotateDouble {u' v' w' : Label α} (hr : Rep h (join d a v s (join d b w (join d c u x y) z)))
    (hnd : (join d a v s (join d b w (join d c u x y) z)).addrs.Nodup)
    (ha : h' a = some (Node.ofDir d v' s.ptr x.ptr)) (hb : h' b = some (Node.ofDir d w' y.ptr z.ptr))
    (hc : h' c = some (Node.ofDir d u' (some a) (some b)))
    (ho : ∀ e, e ≠ a → e ≠ b → e ≠ c → h' e = h e) (hu : u'.obj = u.obj) (hv : v'.obj = v.obj)
    (hw : w'.obj = w.obj) (hbal : HeightBalanced (join d c u' (join d a v' s x) (join d b w' y z))) :
    Turned h h' (join d a v s (join d b w (join d c u x y) z))
      (join d c u' (join d a v' s x) (join d b w' y z)) where
  rep := hr.rotateDouble hnd ha hb hc ho
  perm := addrs_rotateDouble
  frame e he := by
    simp only [mem_addrs_join, not_or] at he
    exact ho e he.1 he.2.2.1 he.2.2.2.1.1
  balanced := hbal
  elems := elems_rotateDouble hu hv hw

end Trees

/-! ## Rebalancing after a deletion -/

/-- After its subtree on side `dir` lost height, the frame loses height too. -/
def Lowers (F : ElementFrame α) : Prop :=
  F.val.balance = F.dir.sign ∨ F.val.balance = -F.dir.sign ∧ rootB F.sib ≠ 0

/-- The turn at this frame is a double rotation around a grandson that is not balanced. -/
def StaleDouble (F : ElementFrame α) : Prop :=
  F.val.balance = -F.dir.sign ∧ rootB F.sib = F.dir.sign ∧ rootB (F.sib.child F.dir) ≠ 0

instance (F : ElementFrame α) : Decidable (Lowers F) := inferInstanceAs (Decidable (_ ∨ _))

instance (F : ElementFrame α) : Decidable (StaleDouble F) := inferInstanceAs (Decidable (_ ∧ _))

section Rebalance

variable {s sib : ElementTree α} {k : ℕ}

theorem rebalanceAt_balanced (hr : Rep h (join d a v s sib)) (hnd : (join d a v s sib).addrs.Nodup)
    (hs : HeightBalanced s) (hsib : HeightBalanced sib) (hv : v.balance = 0) (hk : sib.height = s.height + 1) :
    ∃ h' t', rebalanceAt h a d = .ok (h', none, true) ∧ Turned h h' (join d a v s sib) t' ∧
      t'.height = s.height + 2 ∧ t'.ptr = some a := by
  have ha := (rep_join.mp hr).1
  obtain ⟨h₁, e₁, a₁, o₁⟩ := setB_ok ha (-d.sign)
  refine ⟨h₁, _, ?_, turned_setB hr hnd a₁ o₁ ?_, ?_, ptr_join⟩
  · simp only [rebalanceAt, load_eq ha, Node.ofDir_val, hv, if_true, bind, Except.bind, e₁]
  · rw [HeightBalanced, balanced_join]
    refine ⟨?_, hs, hsib⟩
    rcases d.sign_cases with hd | hd <;> simp only [withB_balance, hd] <;> omega
  · rw [height_join]
    omega

theorem rebalanceAt_toward (hr : Rep h (join d a v s sib)) (hnd : (join d a v s sib).addrs.Nodup)
    (hs : HeightBalanced s) (hsib : HeightBalanced sib) (hv : v.balance = d.sign)
    (hk : sib.height = s.height) :
    ∃ h' t', rebalanceAt h a d = .ok (h', none, false) ∧ Turned h h' (join d a v s sib) t' ∧
      t'.height = s.height + 1 ∧ t'.ptr = some a := by
  have ha := (rep_join.mp hr).1
  have hd0 : d.sign ≠ 0 := by cases d <;> decide
  obtain ⟨h₁, e₁, a₁, o₁⟩ := setB_ok ha 0
  refine ⟨h₁, _, ?_, turned_setB hr hnd a₁ o₁ ?_, ?_, ptr_join⟩
  · simp only [rebalanceAt, load_eq ha, Node.ofDir_val, hv, if_neg hd0, if_true, bind, Except.bind, e₁]
  · rw [HeightBalanced, balanced_join]
    refine ⟨?_, hs, hsib⟩
    simp [hk]
  · rw [height_join]
    omega

/-- The three rotations when the other side is two higher. -/
theorem rebalanceAt_rotate (hr : Rep h (join d a v s sib)) (hnd : (join d a v s sib).addrs.Nodup)
    (hs : HeightBalanced s) (hsib : HeightBalanced sib) (hv : v.balance = -d.sign)
    (hk : sib.height = s.height + 2) (hstale : rootB sib = d.sign → rootB (sib.child d) = 0) :
    ∃ h' t', rebalanceAt h a d = .ok (h', some t'.ptr, decide (rootB sib = 0)) ∧
      Turned h h' (join d a v s sib) t' ∧ t'.height + (if rootB sib = 0 then 0 else 1) = s.height + 3 := by
  obtain ⟨b, w, x, y, rfl⟩ := exists_join d (show sib ≠ .nil by rintro rfl; simp [height] at hk)
  obtain ⟨ha, -, hrb⟩ := rep_join.mp hr
  obtain ⟨hb, -, hry⟩ := rep_join.mp hrb
  rw [ptr_join] at ha
  have hnd' := hnd
  simp only [nodup_join, mem_addrs_join, not_or] at hnd'
  have hab : a ≠ b := hnd'.2.1.1
  have hd0 : -d.sign ≠ 0 := by cases d <;> decide
  have hdd : -d.sign ≠ d.sign := by cases d <;> decide
  obtain ⟨⟨hw, hw1, hw2⟩, hx, hy⟩ := balanced_join.mp hsib
  have hhigh : (s.height : ℤ) + 2 = (join d b w x y).height := by rw [hk]; push_cast; ring
  simp only [rootB, rootBal_join, child_join] at hstale ⊢
  by_cases hw0 : w.balance = 0
  · obtain ⟨h₁, e₁, a₁, b₁, o₁⟩ := rotateSingle_ok ha hb hab
    obtain ⟨h₂, e₂, b₂, o₂⟩ := setB_ok b₁ d.sign
    have hbal := balanced_rotate a b v (w.withB d.sign) hs hx hy hw
      (Or.inl hw0) hhigh (by rw [if_pos hw0, hv]) (by rw [if_pos hw0]; rfl)
    refine ⟨h₂, _, ?_, turned_rotate hr hnd ((o₂ a hab).trans a₁) b₂
      (fun e h1 h2 => (o₂ e h2).trans (o₁ e h1 h2)) rfl rfl hbal.1, hbal.2⟩
    simp only [rebalanceAt, load_eq ha, load_eq hb, Node.ofDir_val, Node.ofDir_child_opp, hv, hw0,
      if_neg hd0, if_neg hdd, if_true, bind, Except.bind, e₁, e₂, ptr_join, decide_true]
  by_cases hwd : w.balance = -d.sign
  · obtain ⟨h₁, e₁, a₁, b₁, o₁⟩ := rotateSingle_ok ha hb hab
    obtain ⟨h₂, e₂, b₂, o₂⟩ := setB_ok b₁ 0
    obtain ⟨h₃, e₃, a₃, o₃⟩ := setB_ok ((o₂ a hab).trans a₁) 0
    have hbal := balanced_rotate a b (v.withB 0) (w.withB 0) hs hx hy hw
      (Or.inr hwd) hhigh (by rw [if_neg hw0]; rfl) (by rw [if_neg hw0]; rfl)
    refine ⟨h₃, _, ?_, turned_rotate hr hnd a₃ ((o₃ b hab.symm).trans b₂)
      (fun e h1 h2 => (o₃ e h1).trans ((o₂ e h2).trans (o₁ e h1 h2))) rfl rfl hbal.1, hbal.2⟩
    simp only [rebalanceAt, load_eq ha, load_eq hb, Node.ofDir_val, Node.ofDir_child_opp, hv, hwd,
      if_neg hdd, if_true, if_false, bind, Except.bind, e₁, e₂, e₃, ptr_join, hd0, decide_false]
  · have hlean : w.balance = d.sign := by rcases d.sign_cases with hd | hd <;> rw [hd] at hwd ⊢ <;> omega
    obtain ⟨c, u, x₁, x₂, rfl⟩ := exists_join d (show x ≠ .nil by
      rintro rfl
      rcases d.sign_cases with hd | hd <;> rw [hd] at hw hlean <;> simp only [height] at hw <;> omega)
    obtain ⟨hc, -, -⟩ := rep_join.mp (rep_join.mp hrb).2.1
    rw [ptr_join] at hb
    simp only [mem_addrs_join, not_or] at hnd'
    have hac : a ≠ c := hnd'.2.1.2.1.1
    have hbc : b ≠ c := hnd'.2.2.2.1.1.1
    obtain ⟨⟨hu, hu1, hu2⟩, hx₁, hx₂⟩ := balanced_join.mp hx
    have hu0 : u.balance = 0 := (rootBal_join Label.balance).symm.trans (hstale hlean)
    have hud : u.balance ≠ d.sign := by rw [hu0]; cases d <;> decide
    obtain ⟨h₁, e₁, a₁, b₁, c₁, o₁⟩ := deleteRotateDouble_ok ha hb hc hab hac hbc
    obtain ⟨h₂, e₂, b₂, o₂⟩ := setB_ok b₁ 0
    obtain ⟨h₃, e₃, a₃, o₃⟩ := setB_ok ((o₂ a hab).trans a₁) 0
    have hbal := balanced_rotateDouble a b c u (v.withB 0) (w.withB 0) hs hx₁ hx₂ hy hu hu1 hu2 hw hlean hhigh hu0 (by simp [hu0]) (by simp [hud])
    refine ⟨h₃, _, ?_, turned_rotateDouble hr hnd a₃ ((o₃ b hab.symm).trans b₂)
      ((o₃ c hac.symm).trans ((o₂ c hbc.symm).trans c₁))
      (fun e h1 h2 h3 => (o₃ e h1).trans ((o₂ e h2).trans (o₁ e h1 h2 h3))) rfl rfl rfl hbal.1, ?_⟩
    · simp only [rebalanceAt, load_eq ha, load_eq hb, load_eq c₁, deleteDoubleBalances, Node.ofDir_val,
        Node.ofDir_child_opp, Node.ofDir_child, hv, hu0, if_neg hd0, if_neg hdd, if_false, if_neg hwd,
        bind, Except.bind, e₁, ptr_join, hw0, decide_false, true_or, if_true, if_neg (hu0 ▸ hud), e₂, e₃]
    · rw [if_neg hw0]
      exact hbal.2

/-- One turn of the walk up: the subtree is balanced again, and loses height when the frame says so. -/
theorem rebalanceAt_turned {F : ElementFrame α} (hr : Rep h (F.fill s)) (hnd : (F.fill s).addrs.Nodup)
    (hfit : F.Fits Label.balance (s.height + 1)) (hs : HeightBalanced s) (hstale : ¬ StaleDouble F) :
    ∃ h' top t', rebalanceAt h F.addr F.dir = .ok (h', top, decide (¬ Lowers F)) ∧
      Turned h h' (F.fill s) t' ∧ t'.height + (if Lowers F then 1 else 0) = F.height (s.height + 1) ∧
      (top = some t'.ptr ∧ F.val.balance = -F.dir.sign ∨ top = none ∧ t'.ptr = some F.addr) := by
  obtain ⟨⟨hb, hb1, hb2⟩, hsib⟩ := hfit
  have hd0 : F.dir.sign ≠ 0 := by cases F.dir <;> decide
  have hdd : F.dir.sign ≠ -F.dir.sign := by cases F.dir <;> decide
  rcases show F.val.balance = 0 ∨ F.val.balance = F.dir.sign ∨ F.val.balance = -F.dir.sign by
    rcases F.dir.sign_cases with hd | hd <;> rw [hd] <;> omega with h0 | h1 | h2
  · have hlow : ¬ Lowers F := by
      rw [Lowers, h0]
      rintro (h | ⟨h, -⟩)
      · exact hd0 h.symm
      · exact hd0 (neg_eq_zero.mp h.symm)
    have hk : F.sib.height = s.height + 1 := by
      rcases F.dir.sign_cases with hd | hd <;> rw [hd, h0] at hb <;> push_cast at hb <;> omega
    obtain ⟨h', t', he, ht, hh, hp⟩ := rebalanceAt_balanced hr hnd hs hsib h0 hk
    refine ⟨h', none, t', by rw [he, decide_eq_true hlow], ht, ?_, Or.inr ⟨rfl, hp⟩⟩
    rw [if_neg hlow, hh, Frame.height]
    omega
  · have hlow : Lowers F := Or.inl h1
    have hk : F.sib.height = s.height := by
      rcases F.dir.sign_cases with hd | hd <;> rw [h1, hd] at hb <;> push_cast at hb <;> omega
    obtain ⟨h', t', he, ht, hh, hp⟩ := rebalanceAt_toward hr hnd hs hsib h1 hk
    refine ⟨h', none, t', by rw [he, decide_eq_false (not_not.mpr hlow)], ht, ?_, Or.inr ⟨rfl, hp⟩⟩
    rw [if_pos hlow, hh, Frame.height]
    omega
  · have hlow : ¬ Lowers F ↔ rootB F.sib = 0 := by
      rw [Lowers, h2]
      constructor
      · intro h
        by_contra hne
        exact h (Or.inr ⟨rfl, hne⟩)
      · rintro h (h' | ⟨-, h'⟩)
        · exact hdd h'.symm
        · exact h' h
    have hk : F.sib.height = s.height + 2 := by
      rcases F.dir.sign_cases with hd | hd <;> rw [h2, hd] at hb <;> push_cast at hb <;> omega
    obtain ⟨h', t', he, ht, hh⟩ := rebalanceAt_rotate hr hnd hs hsib h2 hk fun h => by
      by_contra hne
      exact hstale ⟨h2, h, hne⟩
    refine ⟨h', some t'.ptr, t', ?_, ht, ?_, Or.inl ⟨rfl, h2⟩⟩
    · rw [he]
      simp only [hlow]
    · rw [Frame.height, hk]
      by_cases h0 : rootB F.sib = 0
      · rw [if_neg (hlow.mpr h0)]
        rw [if_pos h0] at hh
        omega
      · rw [if_pos (not_not.mp (mt hlow.mp h0))]
        rw [if_neg h0] at hh
        omega

end Rebalance

/-! ## Rebalancing after an insertion -/

section InsertRotate

variable {s son : ElementTree α} {inserted : Option Addr}

/-- The rotations of an insertion, at a node whose side opposite to `d` became two higher. -/
theorem insertRotate_turned (inserted : Option Addr) (hr : Rep h (join d a v s son)) (hnd : (join d a v s son).addrs.Nodup)
    (hs : HeightBalanced s) (hson : HeightBalanced son) (hk : son.height = s.height + 2)
    (hlean : rootB son ≠ 0) :
    ∃ h' t', insertRotate h d.opp (some a) son.ptr inserted = .ok (h', t'.ptr) ∧
      Turned h h' (join d a v s son) t' ∧ t'.height = s.height + 2 := by
  obtain ⟨b, w, x, y, rfl⟩ := exists_join d (show son ≠ .nil by rintro rfl; simp [height] at hk)
  obtain ⟨ha, -, hrb⟩ := rep_join.mp hr
  obtain ⟨hb, -, -⟩ := rep_join.mp hrb
  rw [ptr_join] at ha
  have hnd' := hnd
  simp only [nodup_join, mem_addrs_join, not_or] at hnd'
  have hab : a ≠ b := hnd'.2.1.1
  have hdd : d.sign ≠ -d.sign := by cases d <;> decide
  obtain ⟨⟨hw, hw1, hw2⟩, hx, hy⟩ := balanced_join.mp hson
  have hhigh : (s.height : ℤ) + 2 = (join d b w x y).height := by rw [hk]; push_cast; ring
  simp only [rootB, rootBal_join] at hlean
  by_cases hwd : w.balance = -d.sign
  · obtain ⟨h₁, e₁, a₁, b₁, o₁⟩ := rotateSingle_ok ha hb hab
    obtain ⟨h₂, e₂, b₂, o₂⟩ := setB_ok b₁ 0
    obtain ⟨h₃, e₃, a₃, o₃⟩ := setB_ok ((o₂ a hab).trans a₁) 0
    have hbal := balanced_rotate a b (v.withB 0) (w.withB 0) hs hx hy hw
      (Or.inr hwd) hhigh (by rw [if_neg hlean]; rfl) (by rw [if_neg hlean]; rfl)
    refine ⟨h₃, _, ?_, turned_rotate hr hnd a₃ ((o₃ b hab.symm).trans b₂)
      (fun e h1 h2 => (o₃ e h1).trans ((o₂ e h2).trans (o₁ e h1 h2))) rfl rfl hbal.1, ?_⟩
    · simp only [insertRotate, ptr_join, load_eq hb, Node.ofDir_val, Dir.sign_opp, hwd, if_true, bind,
        Except.bind, e₁, e₂, e₃]
    · have := hbal.2
      rw [if_neg hlean] at this
      omega
  · have hwp : w.balance = d.sign := by rcases d.sign_cases with hd | hd <;> rw [hd] at hwd ⊢ <;> omega
    obtain ⟨c, u, x₁, x₂, rfl⟩ := exists_join d (show x ≠ .nil by
      rintro rfl
      rcases d.sign_cases with hd | hd <;> rw [hd] at hw hwp <;> simp only [height] at hw <;> omega)
    obtain ⟨hc, -, -⟩ := rep_join.mp (rep_join.mp hrb).2.1
    rw [ptr_join] at hb
    simp only [mem_addrs_join, not_or] at hnd'
    have hac : a ≠ c := hnd'.2.1.2.1.1
    have hbc : b ≠ c := hnd'.2.2.2.1.1.1
    obtain ⟨⟨hu, hu1, hu2⟩, hx₁, hx₂⟩ := balanced_join.mp hx
    obtain ⟨h₁, e₁, a₁, b₁, c₁, o₁⟩ := insertRotateDouble_ok ha hb hc hab hac hbc
    obtain ⟨h₂, e₂, a₂, o₂⟩ := setB_ok a₁ (if u.balance = -d.sign then d.sign else 0)
    obtain ⟨h₃, e₃, b₃, o₃⟩ := setB_ok ((o₂ b hab.symm).trans b₁)
      (if u.balance = -d.sign ∨ u.balance = 0 then 0 else -d.sign)
    obtain ⟨h₄, e₄, c₄, o₄⟩ := setB_ok ((o₃ c hbc.symm).trans ((o₂ c hac.symm).trans c₁)) 0
    have hbal := balanced_rotateDouble a b c (u.withB 0) (v.withB (if u.balance = -d.sign then d.sign else 0))
      (w.withB (if u.balance = -d.sign ∨ u.balance = 0 then 0 else -d.sign))
      hs hx₁ hx₂ hy hu hu1 hu2 hw hwp hhigh rfl
      (by rcases d.sign_cases with hd | hd <;> simp only [withB_balance, hd] <;> split_ifs <;> omega)
      (by rcases d.sign_cases with hd | hd <;> simp only [withB_balance, hd] <;> split_ifs <;> omega)
    refine ⟨h₄, _, ?_, turned_rotateDouble hr hnd ((o₄ a hac).trans ((o₃ a hab).trans a₂))
      ((o₄ b hbc).trans b₃) c₄ (fun e h1 h2 h3 => (o₄ e h3).trans ((o₃ e h2).trans ((o₂ e h1).trans
        (o₁ e h1 h2 h3)))) rfl rfl rfl hbal.1, ?_⟩
    · simp only [insertRotate, insertDoubleBalances, ptr_join, load_eq hb, load_eq c₁, Node.ofDir_val,
        Node.ofDir_child, Dir.sign_opp, Dir.opp_opp, neg_neg, hwp, if_neg hdd, if_true, bind, Except.bind,
        e₁, e₂, e₃, e₄]
    · have := hbal.2
      omega

end InsertRotate

end ParFlow.Hbt
