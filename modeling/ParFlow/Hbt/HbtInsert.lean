import ParFlow.Hbt.HbtRotate

/-! `HBT_insert` keeps the tree valid: the descent splits the tree at the place where
rebalancing starts, below which every element of the path is balanced. -/

namespace ParFlow.Hbt

open FuelRun HeapTree HTree

variable {α : Type} {compare : α → α → ℤ} {x : α}

/-- The search for `x` takes the direction of the frame. -/
def Toward (compare : α → α → ℤ) (x : α) (F : ElementFrame α) : Prop :=
  compare x F.val.obj ≠ 0 ∧ (if compare x F.val.obj < 0 then Dir.left else Dir.right) = F.dir

/-! ## The descent -/

section Descent

variable {h : Heap (Label α)} {t : ElementTree α} {fuel : ℕ} {fa re : Option Addr}

/-- A free place, seen from the subtree `t`: `G` is the element where rebalancing starts. With
nothing above `G` in `t`, the start is the one handed down. -/
def SplitAt (compare : α → α → ℤ) (x : α) (t : ElementTree α) (fa re : Option Addr)
    (P : List (ElementFrame α)) (G : ElementFrame α) (C : List (ElementFrame α)) (place : Place) : Prop :=
  t = plug (P ++ G :: C) .nil ∧ (∀ F ∈ P, F.val.balance = 0) ∧
    (∀ F ∈ P ++ G :: C, Toward compare x F) ∧
    ∃ temp d, (stackOf (P ++ [G])).head? = some (temp, d) ∧
      (C = [] ∧ place = .free temp d fa re ∨
        C ≠ [] ∧ G.val.balance ≠ 0 ∧ place = .free temp d (father (stackOf C)).1 (some G.addr))

theorem insertPlace_step {d : Dir} {a : Addr} {v : Label α} {s sib : ElementTree α}
    (hr : Rep h (join d a v s sib)) (h0 : compare x v.obj ≠ 0)
    (hd : (if compare x v.obj < 0 then Dir.left else Dir.right) = d) :
    insertPlace compare h x (fuel + 1) (some a) fa re =
      if s.ptr = none then .ok (.free a d fa re)
      else if rootB s ≠ 0 then insertPlace compare h x fuel s.ptr (some a) s.ptr
      else insertPlace compare h x fuel s.ptr fa re := by
  obtain ⟨ha, hs, -⟩ := rep_join.mp hr
  simp only [insertPlace, load_eq ha, Node.ofDir_val, h0, hd, Node.ofDir_child, bind, Except.bind, if_false]
  cases s with
  | nil => rfl
  | node i l w r =>
    simp only [ptr_node, load_eq hs.1]
    rfl

theorem SplitAt.single {F : ElementFrame α} (hF : Toward compare x F) :
    SplitAt compare x (F.fill .nil) fa re [] F [] (.free F.addr F.dir fa re) :=
  ⟨rfl, by simp, by simpa using hF, F.addr, F.dir, rfl, Or.inl ⟨rfl, rfl⟩⟩

variable {P C : List (ElementFrame α)} {G F : ElementFrame α} {s : ElementTree α} {place : Place}
  {fa' re' : Option Addr}

theorem SplitAt.fill_of_ne_nil (hs : SplitAt compare x s fa re P G C place) (hC : C ≠ [])
    (hF : Toward compare x F) : SplitAt compare x (F.fill s) fa' re' P G (C ++ [F]) place := by
  obtain ⟨rfl, hP, hT, temp, d, htop, h | ⟨-, hG, rfl⟩⟩ := hs
  · exact absurd h.1 hC
  refine ⟨?_, hP, ?_, temp, d, htop, Or.inr ⟨by simp, hG, ?_⟩⟩
  · rw [← plug_snoc, List.append_assoc, List.cons_append]
  · intro F' hF'
    rw [← List.cons_append, ← List.append_assoc, List.mem_append] at hF'
    rcases hF' with h | h
    · exact hT F' h
    · rw [List.mem_singleton.mp h]
      exact hF
  · rcases C with _ | ⟨D, C⟩
    · exact absurd rfl hC
    · rfl

/-- The start handed down was this subtree, and it is not balanced. -/
theorem SplitAt.fill_start (hs : SplitAt compare x s (some F.addr) s.ptr P G [] place)
    (hb : rootB s ≠ 0) (hF : Toward compare x F) :
    SplitAt compare x (F.fill s) fa' re' P G [F] place := by
  obtain ⟨rfl, hP, hT, temp, d, htop, ⟨-, rfl⟩ | h⟩ := hs
  · rw [plug_snoc] at hb ⊢
    refine ⟨?_, hP, ?_, temp, d, htop, Or.inr ⟨by simp, ?_, ?_⟩⟩
    · rw [plug_append]
      rfl
    · intro F' hF'
      rcases List.mem_append.mp hF' with h | h
      · exact hT F' (List.mem_append_left _ h)
      · rcases List.mem_cons.mp h with rfl | h
        · exact hT _ (by simp)
        · rw [List.mem_singleton.mp h]
          exact hF
    · simpa [Frame.fill, rootB] using hb
    · rw [ptr_fill]
      rfl
  · exact absurd rfl h.1

/-- A balanced subtree joins the balanced part of the path. -/
theorem SplitAt.fill_balanced (hs : SplitAt compare x s fa re P G [] place) (hb : rootB s = 0)
    (hF : Toward compare x F) : SplitAt compare x (F.fill s) fa re (P ++ [G]) F [] place := by
  obtain ⟨rfl, hP, hT, temp, d, htop, ⟨-, rfl⟩ | h⟩ := hs
  · rw [plug_snoc] at hb ⊢
    refine ⟨?_, fun F' hF' => ?_, ?_, temp, d, ?_, Or.inl ⟨rfl, rfl⟩⟩
    · rw [plug_snoc, plug_snoc]
    · rcases List.mem_append.mp hF' with h | h
      · exact hP F' h
      · rw [List.mem_singleton.mp h]
        simpa [Frame.fill, rootB] using hb
    · intro F' hF'
      rcases List.mem_append.mp hF' with h | h
      · exact hT F' h
      · rw [List.mem_singleton.mp h]
        exact hF
    · rw [stackOf, List.map_append, List.head?_append]
      rw [stackOf] at htop
      rw [htop]
      rfl
  · exact absurd rfl h.1

theorem insertPlace_spec (compare : α → α → ℤ) (x : α) (fa re : Option Addr) (hr : Rep h t) (ht : t ≠ .nil) :
    ((∀ fuel, t.height ≤ fuel → insertPlace compare h x fuel t.ptr fa re = .ok .found) ∧
        ∃ o ∈ inOrder t, compare x o = 0) ∨
      ∃ P G C place, (∀ fuel, t.height ≤ fuel → insertPlace compare h x fuel t.ptr fa re = .ok place) ∧
        SplitAt compare x t fa re P G C place := by
  induction t using induction_join generalizing fa re with
  | hnil => exact absurd rfl ht
  | hjoin t _ ih =>
    obtain ⟨a, v, l, r, hav⟩ := exists_join .left ht
    have hpos : ∀ fuel, t.height ≤ fuel → ∃ n, fuel = n + 1 := by
      intro fuel hf
      rw [hav, height_join] at hf
      exact ⟨fuel - 1, by omega⟩
    by_cases h0 : compare x v.obj = 0
    · refine Or.inl ⟨fun fuel hf => ?_, v.obj, by simp [hav, join, elems], h0⟩
      obtain ⟨n, rfl⟩ := hpos fuel hf
      rw [hav] at hr ⊢
      simp only [ptr_join, insertPlace, load_eq (rep_join.mp hr).1, Node.ofDir_val, bind, Except.bind, h0,
        if_true]
    -- from here on the node is seen from the side the search takes
    obtain ⟨d, hd⟩ : ∃ d, (if compare x v.obj < 0 then Dir.left else Dir.right) = d := ⟨_, rfl⟩
    obtain ⟨s, sib, hjoin⟩ : ∃ s sib, t = join d a v s sib := by
      rw [hav]
      cases d
      · exact ⟨_, _, rfl⟩
      · exact ⟨_, _, rfl⟩
    have ihs := @ih d a v s sib hjoin
    subst hjoin
    let F : ElementFrame α := ⟨d, a, v, sib⟩
    have hF : Toward compare x F := ⟨h0, hd⟩
    have hs := (rep_join.mp hr).2.1
    have helems : ∀ o ∈ inOrder s, o ∈ inOrder (join d a v s sib) := by
      intro o ho
      cases d <;> simp [join, elems, ho]
    have hle : ∀ n, (join d a v s sib).height ≤ n + 1 → s.height ≤ n := by
      intro n hn
      rw [height_join] at hn
      omega
    by_cases hsn : s = .nil
    · subst hsn
      refine Or.inr ⟨[], F, [], _, fun fuel hf => ?_, SplitAt.single hF⟩
      obtain ⟨n, rfl⟩ := hpos fuel hf
      rw [ptr_join, insertPlace_step hr h0 hd]
      rfl
    by_cases hb : rootB s ≠ 0
    · have hstep : ∀ place, (∀ n, s.height ≤ n → insertPlace compare h x n s.ptr (some a) s.ptr = .ok place) →
          ∀ fuel, (join d a v s sib).height ≤ fuel →
            insertPlace compare h x fuel (join d a v s sib).ptr fa re = .ok place := by
        intro place he fuel hf
        obtain ⟨n, rfl⟩ := hpos fuel hf
        rw [ptr_join, insertPlace_step hr h0 hd, if_neg (mt ptr_eq_none.mp hsn), if_pos hb, he n (hle n hf)]
      rcases ihs (some a) s.ptr hs hsn with ⟨he, o, ho, hc⟩ | ⟨P, G, C, place, he, hS⟩
      · exact Or.inl ⟨hstep _ he, o, helems o ho, hc⟩
      · rcases eq_or_ne C [] with rfl | hC
        · exact Or.inr ⟨P, G, [F], place, hstep _ he, hS.fill_start (F := F) hb hF⟩
        · exact Or.inr ⟨P, G, C ++ [F], place, hstep _ he, hS.fill_of_ne_nil hC hF⟩
    · have hstep : ∀ place, (∀ n, s.height ≤ n → insertPlace compare h x n s.ptr fa re = .ok place) →
          ∀ fuel, (join d a v s sib).height ≤ fuel →
            insertPlace compare h x fuel (join d a v s sib).ptr fa re = .ok place := by
        intro place he fuel hf
        obtain ⟨n, rfl⟩ := hpos fuel hf
        rw [ptr_join, insertPlace_step hr h0 hd, if_neg (mt ptr_eq_none.mp hsn), if_neg hb, he n (hle n hf)]
      rcases ihs fa re hs hsn with ⟨he, o, ho, hc⟩ | ⟨P, G, C, place, he, hS⟩
      · exact Or.inl ⟨hstep _ he, o, helems o ho, hc⟩
      · rcases eq_or_ne C [] with rfl | hC
        · exact Or.inr ⟨P ++ [G], F, [], place, hstep _ he, hS.fill_balanced (not_not.mp hb) hF⟩
        · exact Or.inr ⟨P, G, C ++ [F], place, hstep _ he, hS.fill_of_ne_nil hC hF⟩

/-- From the root of the tree, the start of rebalancing is always `G` and its father. -/
theorem SplitAt.place_eq (hs : SplitAt compare x t none t.ptr P G C place) :
    ∃ temp d, (stackOf (P ++ [G])).head? = some (temp, d) ∧
      place = .free temp d (father (stackOf C)).1 (some G.addr) ∧ (C = [] ∨ G.val.balance ≠ 0) := by
  obtain ⟨rfl, -, -, temp, d, htop, ⟨rfl, rfl⟩ | ⟨-, hG, rfl⟩⟩ := hs
  · refine ⟨temp, d, htop, ?_, Or.inl rfl⟩
    rw [plug_snoc, ptr_fill]
    rfl
  · exact ⟨temp, d, htop, rfl, Or.inr hG⟩

end Descent

/-! ## The balance factors on the path -/

/-- The frame after its subtree on side `dir` grew. -/
def tilt (F : ElementFrame α) : ElementFrame α := { F with val := F.val.withB F.dir.sign }

def leaf (a : Addr) (x : α) : ElementTree α := .node a .nil ⟨x, 0⟩ .nil

section Adjust

variable {h : Heap (Label α)} {P : List (ElementFrame α)} {inserted : Addr} {fuel : ℕ}

theorem addrs_tilt (s : ElementTree α) : (plug (P.map tilt) s).addrs.Perm (plug P s).addrs := by
  have hC : ctxAddrs (P.map tilt) = ctxAddrs P := by
    rw [ctxAddrs, List.flatMap_map]
    rfl
  exact addrs_plug.trans (hC ▸ addrs_plug.symm)

theorem ptr_tilt (s : ElementTree α) : (plug (P.map tilt) s).ptr = (plug P s).ptr := by
  rcases List.eq_nil_or_concat P with rfl | ⟨Q, D, rfl⟩
  · rfl
  · rw [List.concat_eq_append, List.map_append, List.map_singleton, plug_snoc, plug_snoc, ptr_fill, ptr_fill]
    rfl

theorem adjustPath_spec (hr : Rep h (plug P (leaf inserted x))) (hnd : (plug P (leaf inserted x)).addrs.Nodup)
    (hP : ∀ F ∈ P, Toward compare x F) :
    ∃ h', (∀ fuel, P.length < fuel →
        adjustPath compare x (some inserted) fuel (plug P (leaf inserted x)).ptr h = .ok h') ∧
      Rep h' (plug (P.map tilt) (leaf inserted x)) ∧
      ∀ a, a ∉ (plug P (leaf inserted x)).addrs → h' a = h a := by
  induction P using List.reverseRecOn generalizing h with
  | nil =>
    refine ⟨h, fun fuel hf => ?_, hr, fun _ _ => rfl⟩
    obtain ⟨n, rfl⟩ : ∃ n, fuel = n + 1 := ⟨fuel - 1, by omega⟩
    simp only [plug, leaf, ptr_node, adjustPath, if_true]
  | append_singleton P F ih =>
    rw [plug_snoc] at hr hnd ⊢
    obtain ⟨hF, hrs, hsib⟩ := rep_fill.mp hr
    obtain ⟨hFs, hFsib, hnds, -, hdis⟩ := nodup_fill.mp hnd
    have hins : inserted ∈ (plug P (leaf inserted x)).addrs :=
      addrs_plug.mem_iff.mpr (List.mem_append_left _ (by simp [leaf, addrs]))
    have hne : F.addr ≠ inserted := fun he => hFs (he ▸ hins)
    obtain ⟨h₁, e₁, hF₁, o₁⟩ := setB_ok hF F.dir.sign
    obtain ⟨h₂, e₂, hr₂, o₂⟩ := ih (h := h₁) (hrs.congr fun a ha => o₁ a fun he => hFs (he ▸ ha)) hnds
      fun F' hF' => hP F' (List.mem_append_left _ hF')
    refine ⟨h₂, fun fuel hf => ?_, ?_, fun a ha => ?_⟩
    · obtain ⟨n, rfl⟩ : ∃ n, fuel = n + 1 := ⟨fuel - 1, by omega⟩
      obtain ⟨hx0, hxd⟩ := hP F (by simp)
      simp only [ptr_fill, adjustPath, Option.some.injEq, if_neg hne, load_eq hF, Node.ofDir_val, bind,
        Except.bind]
      rw [List.length_append, List.length_singleton] at hf
      split_ifs at hxd with hlt
      · rw [← hxd] at e₁
        simp only [if_pos hlt, e₁]
        rw [← e₂ n (by omega), ← hxd]
        rfl
      · have hgt : compare x F.val.obj > 0 := by omega
        rw [← hxd] at e₁
        simp only [if_neg hlt, if_pos hgt, e₁]
        rw [← e₂ n (by omega), ← hxd]
        rfl
    · rw [List.map_append, List.map_singleton, plug_snoc, rep_fill]
      refine ⟨?_, hr₂, hsib.congr fun a ha => ?_⟩
      · rw [ptr_tilt]
        exact (o₂ F.addr hFs).trans hF₁
      · exact (o₂ a fun has => hdis a has ha).trans (o₁ a fun he => hFsib (he ▸ ha))
    · rw [Frame.fill, mem_addrs_join, not_or, not_or] at ha
      exact (o₂ a ha.2.1).trans (o₁ a ha.1)

/-- A balanced path that grew leans towards the new element everywhere. -/
theorem balanced_tilt (inserted : Addr) (x : α) (hb : HeightBalanced (plug P .nil)) (hP : ∀ F ∈ P, F.val.balance = 0) :
    HeightBalanced (plug (P.map tilt) (leaf inserted x)) ∧
      (plug (P.map tilt) (leaf inserted x)).height = (plug P .nil).height + 1 ∧
      (P = [] ∨ rootB (plug (P.map tilt) (leaf inserted x)) ≠ 0) := by
  induction P using List.reverseRecOn with
  | nil => exact ⟨by simp [HeightBalanced, plug, leaf, AvlBalanced, height], rfl, Or.inl rfl⟩
  | append_singleton P F ih =>
    rw [plug_snoc, HeightBalanced, balanced_fill] at hb
    obtain ⟨⟨⟨hF, -, -⟩, hsib⟩, hbP⟩ := hb
    obtain ⟨ih₁, ih₂, -⟩ := ih hbP fun F' hF' => hP F' (List.mem_append_left _ hF')
    rw [hP F (by simp)] at hF
    rw [List.map_append, List.map_singleton, plug_snoc, plug_snoc, HeightBalanced, balanced_fill,
      height_fill, height_fill, ih₂]
    have hk : F.sib.height = (plug P .nil).height := by
      rcases F.dir.sign_cases with hd | hd <;> rw [hd] at hF <;> omega
    refine ⟨⟨⟨?_, hsib⟩, ih₁⟩, ?_, Or.inr ?_⟩
    · simp only [tilt, withB_balance, hk]
      rcases F.dir.sign_cases with hd | hd <;> simp [hd]
    · simp only [Frame.height, tilt, hk]
      omega
    · simp only [rootB, Frame.fill, rootBal_join, tilt, withB_balance]
      cases F.dir <;> decide

end Adjust

/-! ## The rebalancing -/

section Rebalance

variable {T : HBT α} {G : ElementFrame α} {C : List (ElementFrame α)} {son t' : ElementTree α}
  {h' : Heap (Label α)} {k : ℕ} {inserted : Option Addr}

/-- The father is found again by comparing its right son with the old root of the subtree. -/
theorem setSon_of_rotated (hT : Stores T (plug (G :: C) son)) (ht : Turned T.heap h' (G.fill son) t') :
    (match (father (stackOf C)).1 with
      | none => (.ok { T with heap := h', root := t'.ptr } : Except Fault (HBT α))
      | some _ => do
        let f ← load h' (father (stackOf C)).1
        setSon { T with heap := h' } (father (stackOf C)).1
          (if some G.addr = f.right then .right else .left) t'.ptr) =
      setSon { T with heap := h' } (father (stackOf C)).1 (father (stackOf C)).2 t'.ptr := by
  rcases C with _ | ⟨F, C⟩
  · rfl
  · obtain ⟨hF, -, -⟩ := (rep_plug.mp (show Rep T.heap (plug (F :: C) (G.fill son)) from hT.rep)).1
    have hnd := (nodup_plug.mp (show (plug (F :: C) (G.fill son)).addrs.Nodup from hT.nodup)).2.2
    have hGF : F.addr ∉ (G.fill son).addrs := fun ha => hnd _ ha (by simp [ctxAddrs_cons, Frame.addrs])
    have hF' : h' F.addr = some (Node.ofDir F.dir F.val (some G.addr) F.sib.ptr) := by
      rw [ht.frame _ hGF, hF, ptr_fill]
    have hdir : (if some G.addr = (Node.ofDir F.dir F.val (some G.addr) F.sib.ptr).right then Dir.right
        else Dir.left) = F.dir := by
      cases hd : F.dir with
      | right => exact if_pos rfl
      | left =>
        refine if_neg fun he => ?_
        have hG : G.addr ∈ F.sib.addrs := ptr_mem_addrs he.symm
        exact hnd G.addr (ptr_mem_addrs ptr_fill) (by simp [ctxAddrs_cons, Frame.addrs, hG])
    simp only [stackOf, List.map_cons, father, load_eq hF', bind, Except.bind, hdir]

theorem insertRebalance_spec (inserted : Option Addr) (hT : Stores T (plug (G :: C) son)) (hfit : G.Fits Label.balance k)
    (hson : HeightBalanced son) (hk : son.height = k + 1) (hlean : k = 0 ∨ rootB son ≠ 0) :
    ∃ T' t', insertRebalance T G.dir (father (stackOf C)).1 (some G.addr) son.ptr inserted = .ok T' ∧
      Stores T' (plug C t') ∧ HeightBalanced t' ∧ inOrder t' = inOrder (G.fill son) ∧
      t'.height = G.height k + (if G.val.balance = 0 then 1 else 0) ∧
      T'.height = T.height + (if G.val.balance = 0 then 1 else 0) ∧
      T'.num = T.num ∧ T'.mallocFlag = T.mallocFlag := by
  obtain ⟨⟨hb, hb1, hb2⟩, hsib⟩ := hfit
  have hr : Rep T.heap (G.fill son) := (rep_plug.mp (show Rep T.heap (plug C (G.fill son)) from hT.rep)).2
  have hnd : (G.fill son).addrs.Nodup :=
    (nodup_plug.mp (show (plug C (G.fill son)).addrs.Nodup from hT.nodup)).1
  have hG := (rep_fill.mp hr).1
  have hd0 : G.dir.sign ≠ 0 := by cases G.dir <;> decide
  have hdd : G.dir.sign ≠ -G.dir.sign := by cases G.dir <;> decide
  rcases show G.val.balance = 0 ∨ G.val.balance = -G.dir.sign ∨ G.val.balance = G.dir.sign by
    rcases G.dir.sign_cases with hd | hd <;> rw [hd] <;> omega with h0 | h1 | h2
  · have hs : G.sib.height = k := by
      rcases G.dir.sign_cases with hd | hd <;> rw [hd, h0] at hb <;> omega
    obtain ⟨h₁, e₁, a₁, o₁⟩ := setB_ok hG G.dir.sign
    have ht := turned_setB (b := G.dir.sign) hr hnd a₁ o₁ (balanced_join.mpr ⟨by
      rw [hk, hs]
      rcases G.dir.sign_cases with hd | hd <;> simp [hd], hson, hsib⟩)
    refine ⟨{ T with heap := h₁, height := T.height + 1 }, _, ?_, ?_, ht.balanced, ht.elems, ?_, ?_, rfl, rfl⟩
    · simp only [insertRebalance, load_eq hG, Node.ofDir_val, h0, if_true, bind, Except.bind, e₁]
    · obtain ⟨hs1, hs2, hs3⟩ := Stores.turn_same (C := C) hT ht (ptr_join.trans ptr_join.symm)
      exact ⟨hs1, hs2, hs3⟩
    · rw [height_join, hk, hs, Frame.height, hs, if_pos h0]
      omega
    · rw [if_pos h0]
  · have hs : G.sib.height = k + 1 := by
      rcases G.dir.sign_cases with hd | hd <;> rw [h1, hd] at hb <;> omega
    have h1' : G.val.balance ≠ 0 := by rw [h1]; exact neg_ne_zero.mpr hd0
    obtain ⟨h₁, e₁, a₁, o₁⟩ := setB_ok hG 0
    have ht := turned_setB (b := 0) hr hnd a₁ o₁ (balanced_join.mpr ⟨by
      rw [hk, hs]
      simp, hson, hsib⟩)
    refine ⟨{ T with heap := h₁ }, _, ?_, Stores.turn_same (C := C) hT ht (ptr_join.trans ptr_join.symm),
      ht.balanced, ht.elems, ?_, ?_, rfl, rfl⟩
    · simp only [insertRebalance, load_eq hG, Node.ofDir_val, if_neg h1', if_pos h1, bind, Except.bind, e₁]
    · rw [height_join, hk, hs, Frame.height, hs, if_neg h1']
      omega
    · rw [if_neg h1']
      rfl
  · have hs : k = G.sib.height + 1 := by
      rcases G.dir.sign_cases with hd | hd <;> rw [h2, hd] at hb <;> omega
    have h2' : G.val.balance ≠ 0 := by rw [h2]; exact hd0
    have h2'' : G.val.balance ≠ -G.dir.sign := by rw [h2]; exact hdd
    have hfill : G.fill son = join G.dir.opp G.addr G.val G.sib son := by rw [join_opp]; rfl
    obtain ⟨h₁, t', e₁, ht, hh⟩ := insertRotate_turned (d := G.dir.opp) inserted
      (hfill ▸ hr) (hfill ▸ hnd) hsib hson (by omega) (by rcases hlean with h | h; omega; exact h)
    rw [← hfill] at ht
    rw [Dir.opp_opp] at e₁
    obtain ⟨T', e₂, hT', hnum, hheight, hflag, -⟩ := Stores.turn (C := C) hT ht
    refine ⟨T', t', ?_, hT', ht.balanced, ht.elems, ?_, ?_, hnum, hflag⟩
    · simp only [insertRebalance, load_eq hG, Node.ofDir_val, if_neg h2', if_neg h2'', bind, Except.bind, e₁]
      exact (setSon_of_rotated hT ht).trans e₂
    · rw [hh, Frame.height, if_neg h2']
      omega
    · rw [hheight, if_neg h2']
      rfl

end Rebalance

/-! ## Order -/

section Order

variable {κ : Type} [LinearOrder κ] {key : α → κ}

theorem Toward.lt (hcmp : Compares compare key) {F : ElementFrame α} (hF : Toward compare x F) :
    match F.dir with
    | .left => key x < key F.val.obj
    | .right => key F.val.obj < key x := by
  obtain ⟨h0, hd⟩ := hF
  obtain ⟨hlt, heq⟩ := hcmp x F.val.obj
  split_ifs at hd with h <;> rw [← hd]
  · exact hlt.mp h
  · exact lt_of_le_of_ne (not_lt.mp (mt hlt.mpr h)) fun he => h0 (heq.mpr he.symm)

/-- The search path of `x` parts the elements around it. -/
theorem toward_bounds (hcmp : Compares compare key) {L : List (ElementFrame α)} {s : ElementTree α}
    (hL : ∀ F ∈ L, Toward compare x F) (hs : (inOrder (plug L s)).Pairwise fun a b => key a < key b) :
    (∀ o ∈ ctxBefore Label.obj L, key o < key x) ∧ ∀ o ∈ ctxAfter Label.obj L, key x < key o := by
  induction L generalizing s with
  | nil => exact ⟨by simp [ctxBefore], by simp [ctxAfter]⟩
  | cons F L ih =>
    obtain ⟨hbefore, hafter⟩ := ih (s := F.fill s) (fun F' hF' => hL F' (List.mem_cons_of_mem _ hF')) hs
    have hF := (hL F List.mem_cons_self).lt hcmp
    have hfill : (inOrder (F.fill s)).Pairwise fun a b => key a < key b := by
      rw [inOrder, plug_cons, elems_plug] at hs
      exact (List.pairwise_append.mp (List.pairwise_append.mp hs).1).2.1
    obtain ⟨d, a, v, sib⟩ := F
    cases d with
    | left =>
      simp only [Frame.fill, join, inOrder, elems, List.pairwise_append, List.pairwise_cons] at hfill
      refine ⟨?_, ?_⟩
      · simpa [ctxBefore] using hbefore
      · intro o ho
        simp only [ctxAfter, List.cons_append, List.mem_cons, List.mem_append] at ho
        rcases ho with rfl | ho | ho
        · exact hF
        · exact lt_trans hF (hfill.2.1.1 o ho)
        · exact hafter o ho
    | right =>
      simp only [Frame.fill, join, inOrder, elems, List.pairwise_append] at hfill
      refine ⟨?_, ?_⟩
      · intro o ho
        simp only [ctxBefore, List.mem_append, List.mem_singleton] at ho
        rcases ho with ho | ho | rfl
        · exact hbefore o ho
        · exact lt_trans (hfill.2.2 o ho v.obj List.mem_cons_self) hF
        · exact hF
      · simpa [ctxAfter] using hafter

theorem ctx_tilt (P : List (ElementFrame α)) :
    ctxBefore Label.obj (P.map tilt) = ctxBefore Label.obj P ∧
      ctxAfter Label.obj (P.map tilt) = ctxAfter Label.obj P := by
  induction P with
  | nil => exact ⟨rfl, rfl⟩
  | cons F P ih =>
    simp only [List.map_cons, ctxBefore, ctxAfter, ih.1, ih.2]
    exact ⟨rfl, rfl⟩

/-! ## The operation -/

variable {T : HBT α} {t : ElementTree α} {cell : Option Addr} {fuel : ℕ}

/-- The heap after the new element is linked in. -/
theorem attach_spec {h : Heap (Label α)} {P C : List (ElementFrame α)} {G : ElementFrame α} {a temp : Addr}
    {d : Dir} (hr : Rep h (plug (P ++ G :: C) .nil)) (hnd : (plug (P ++ G :: C) (.nil : ElementTree α)).addrs.Nodup)
    (ha : h a = none) (htop : (stackOf (P ++ [G])).head? = some (temp, d)) :
    ∃ h', setChild (newElement h a x) (some temp) d (some a) = .ok h' ∧
      Rep h' (plug (P ++ G :: C) (leaf a x)) ∧ (plug (P ++ G :: C) (leaf a x)).addrs.Nodup := by
  obtain ⟨hC, -⟩ := rep_plug.mp hr
  obtain ⟨-, hndC, -⟩ := nodup_plug.mp hnd
  have haC : a ∉ ctxAddrs (P ++ G :: C) := fun hm =>
    hr.isSome (addrs_plug.mem_iff.mpr (List.mem_append_right _ hm)) ha
  have hC₀ : RepCtx (newElement h a x) (P ++ G :: C) none :=
    hC.congr fun e he => Function.update_of_ne (fun hea : e = a => haC (hea ▸ he)) _ _
  obtain ⟨F, L, hL, hF⟩ : ∃ F L, P ++ G :: C = F :: L ∧ (F.addr, F.dir) = (temp, d) := by
    rcases P with _ | ⟨F, P⟩
    · exact ⟨G, C, rfl, Option.some.inj htop⟩
    · exact ⟨F, P ++ G :: C, rfl, Option.some.inj htop⟩
  obtain ⟨rfl, rfl⟩ := Prod.mk.inj hF
  rw [hL] at hC₀ hndC haC ⊢
  obtain ⟨h₁, e₁, hC₁, ho⟩ := setChild_ctx hC₀ hndC (some a)
  refine ⟨h₁, e₁, rep_plug.mpr ⟨hC₁, ?_, trivial, trivial⟩, nodup_plug.mpr ⟨List.nodup_singleton a, hndC, ?_⟩⟩
  · rw [ho a haC]
    exact Function.update_self _ _ _
  · intro e he
    rw [List.mem_singleton.mp he]
    exact haC

/-- Attaching the new element, adjusting the path and rebalancing. -/
theorem hbtInsert_attach (hcmp : Compares compare key) (hv : Valid key T t) {P C : List (ElementFrame α)}
    {G : ElementFrame α} {place : Place} {a r : Addr} (ha : T.heap a = none) (hr : t.ptr = some r)
    (hS : SplitAt compare x t none t.ptr P G C place)
    (hplace : ∀ fuel, t.height ≤ fuel → insertPlace compare T.heap x fuel t.ptr none t.ptr = .ok place) :
    ∃ T' t' A B, Returns (fun fuel => hbtInsert compare fuel (some a) x T) (T', .inserted) ∧
      Valid key T' t' ∧ inOrder t = A ++ B ∧ inOrder t' = A ++ x :: B := by
  obtain ⟨temp, d, htop, rfl, hroot⟩ := hS.place_eq
  obtain ⟨rfl, hP0, hT, -⟩ := hS
  obtain ⟨h₁, e₁, hr₁, hnd₁⟩ := attach_spec (x := x) hv.stores.rep hv.stores.nodup ha htop
  rw [plug_append] at hr₁ hnd₁
  obtain ⟨hC₁, hrP⟩ := rep_plug.mp hr₁
  obtain ⟨hndP, hndC, hdis⟩ := nodup_plug.mp hnd₁
  -- the path from the start of rebalancing down to the new element
  have hlen : P.length ≤ (plug (P ++ G :: C) (.nil : ElementTree α)).height := by
    rw [height_plug]
    exact le_trans (by simp) (le_ctxHeight (P ++ G :: C) 0)
  obtain ⟨h₂, e₂, hr₂, ho₂⟩ := adjustPath_spec hrP hndP fun F hF => hT F (List.mem_append_left _ hF)
  have hbal := hv.balanced
  rw [plug_append, HeightBalanced, balanced_plug] at hbal
  obtain ⟨⟨hfit, hfitC⟩, hbalP⟩ := hbal
  obtain ⟨hson, hheight, hlean⟩ := balanced_tilt a x hbalP hP0
  have hT₂ : Stores { T with heap := h₂, num := T.num + 1 } (plug (G :: C) (plug (P.map tilt) (leaf a x))) := by
    refine ⟨?_, rep_plug.mpr ⟨?_, hr₂⟩, nodup_plug.mpr ⟨?_, hndC, fun e he => hdis e ?_⟩⟩
    · rw [ptr_plug_of_ne_nil (List.cons_ne_nil G C) _ (plug P .nil), ← plug_append]
      exact hv.stores.root
    · rw [ptr_tilt]
      exact hC₁.congr fun e he => ho₂ e fun hm => hdis e hm he
    · exact (addrs_tilt _).nodup_iff.mpr hndP
    · exact (addrs_tilt _).mem_iff.mp he
  obtain ⟨T', t', e₃, hT', hbal', helems, hh', hTh, hnum, -⟩ :=
    insertRebalance_spec (some a) hT₂ hfit hson hheight (by
      rcases hlean with rfl | h
      · exact Or.inl rfl
      · exact Or.inr h)
  have hbefore := toward_bounds hcmp hT hv.sorted
  have hold : inOrder (plug (P ++ G :: C) .nil) =
      ctxBefore Label.obj (P ++ G :: C) ++ ctxAfter Label.obj (P ++ G :: C) := by
    rw [inOrder, elems_plug]
    simp [elems]
  have hnew : inOrder (plug C t') =
      ctxBefore Label.obj (P ++ G :: C) ++ x :: ctxAfter Label.obj (P ++ G :: C) := by
    rw [inOrder, elems_plug_congr _ helems, ← plug_cons,
      elems_plug, elems_plug, (ctx_tilt P).1, (ctx_tilt P).2]
    have hbase := elems_plug Label.obj (P ++ G :: C) (leaf a x)
    rw [plug_append, elems_plug, elems_plug] at hbase
    rw [hbase]
    simp [leaf, elems]
  refine ⟨T', plug C t', _, _, ⟨(plug (P ++ G :: C) .nil).height + 1, fun fuel hf => ?_⟩, ⟨hT', ?_, ?_, ?_, ?_⟩, hold, hnew⟩
  · have hG := (rep_plug.mp (show Rep h₁ (plug C (G.fill (plug P (leaf a x)))) from hr₁)).2
    obtain ⟨hG, -⟩ := rep_fill.mp hG
    have hdir := (hT G (by simp)).2
    have hplace := hplace fuel (Nat.le_of_succ_le hf)
    rw [hr] at hplace
    simp only [hbtInsert, hv.stores.root, hr, hplace, bind, Except.bind, e₁, load_eq hG, Node.ofDir_val, hdir,
      Node.ofDir_child, e₂ fuel (lt_of_le_of_lt hlen hf)]
    rw [ptr_tilt] at e₃
    simp only [hv.stores.root, hr] at e₃
    simp only [e₃]
  · rw [hnew, List.pairwise_append, List.pairwise_cons]
    have hsort := hv.sorted
    rw [hold, List.pairwise_append] at hsort
    refine ⟨hsort.1, ⟨hbefore.2, hsort.2.1⟩, fun o ho o' ho' => ?_⟩
    rcases List.mem_cons.mp ho' with rfl | ho'
    · exact hbefore.1 o ho
    · exact hsort.2.2 o ho o' ho'
  · refine balanced_plug.mpr ⟨?_, hbal'⟩
    rcases hroot with rfl | hG
    · trivial
    · rw [hh', if_neg hG]
      exact hfitC
  · rw [hnum, hnew, hv.num, hold]
    simp
    omega
  · rw [hTh, height_plug, hh', hv.height, plug_append, height_plug]
    rcases hroot with rfl | hG
    · rfl
    · rw [if_neg hG]
      rfl

/-- What an insertion returns and leaves behind. -/
theorem hbtInsert_spec (hcmp : Compares compare key) (hv : Valid key T t)
    (hcell : ∀ a, cell = some a → T.heap a = none) :
    ∃ T' ret, Returns (fun fuel => hbtInsert compare fuel cell x T) (T', ret) ∧
      ((∃ o ∈ inOrder t, key o = key x) ∧ ret = .found ∧ T' = T ∨
        (∀ o ∈ inOrder t, key o ≠ key x) ∧ (cell = none ∧ ret = .memoryError ∧ T' = T ∨
          ret = .inserted ∧ ∃ t' A B, Valid key T' t' ∧ inOrder t = A ++ B ∧ inOrder t' = A ++ x :: B)) := by
  rcases eq_or_ne t .nil with rfl | ht
  · have hroot : T.root = none := hv.stores.root
    rcases cell with _ | a
    · refine ⟨T, _, ⟨0, fun fuel _ => ?_⟩, Or.inr ⟨by simp [elems], Or.inl ⟨rfl, rfl, rfl⟩⟩⟩
      simp only [hbtInsert, hroot]
    · refine ⟨_, _, ⟨0, fun fuel _ => by simp only [hbtInsert, hroot]; rfl⟩, Or.inr ⟨by simp [elems],
        Or.inr ⟨rfl, leaf a x, [], [], ⟨⟨rfl, ?_, ?_⟩, ?_, ?_, rfl, rfl⟩, rfl, rfl⟩⟩⟩
      · exact ⟨Function.update_self _ _ _, trivial, trivial⟩
      · exact List.nodup_singleton a
      · exact List.pairwise_singleton _ _
      · simp [HeightBalanced, leaf, AvlBalanced, height]
  · obtain ⟨r, hr⟩ := Option.ne_none_iff_exists'.mp (mt ptr_eq_none.mp ht)
    have hroot : T.root = some r := hv.stores.root.trans hr
    rcases insertPlace_spec compare x none t.ptr hv.stores.rep ht
      with ⟨he, o, ho, hc⟩ | ⟨P, G, C, place, he, hS⟩
    · refine ⟨T, _, ⟨t.height, fun fuel hf => ?_⟩, Or.inl ⟨⟨o, ho, ((hcmp x o).2.mp hc).symm⟩, rfl, rfl⟩⟩
      have he := he fuel hf
      rw [hr] at he
      simp only [hbtInsert, hroot, he, bind, Except.bind]
    · have hne : ∀ o ∈ inOrder t, key o ≠ key x := by
        obtain ⟨rfl, -, hT, -⟩ := hS
        obtain ⟨h1, h2⟩ := toward_bounds hcmp hT hv.sorted
        intro o ho
        rw [inOrder, elems_plug] at ho
        simp only [elems, List.append_nil, List.mem_append] at ho
        rcases ho with ho | ho
        · exact (h1 o ho).ne
        · exact (h2 o ho).ne'
      rcases cell with _ | a
      · obtain ⟨temp, d, -, rfl, -⟩ := hS.place_eq
        refine ⟨T, _, ⟨t.height, fun fuel hf => ?_⟩, Or.inr ⟨hne, Or.inl ⟨rfl, rfl, rfl⟩⟩⟩
        have he := he fuel hf
        rw [hr] at he
        simp only [hbtInsert, hroot, he, bind, Except.bind]
      · obtain ⟨T', t', A, B, hret, hspec⟩ := hbtInsert_attach hcmp hv (hcell a rfl) hr hS he
        exact ⟨T', _, hret, Or.inr ⟨hne, Or.inr ⟨rfl, t', A, B, hspec⟩⟩⟩

end Order

end ParFlow.Hbt
