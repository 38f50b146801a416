import ParFlow.Hbt.HbtRebalance
import ParFlow.Hbt.HbtDictionary

/-! `HBT_delete`: finding the element, taking it out of the tree and walking back. The
condition under which the walk is right is a predicate on the tree before the call. -/

namespace ParFlow.Hbt

open FuelRun HeapTree HTree

variable {α : Type} {compare : α → α → ℤ} {x : α}

/-! ## When a deletion is safe -/

/-- The path from the leftmost element up to the root of a tree. -/
def leftSpine : ElementTree α → List (ElementFrame α)
  | .nil => []
  | .node _ .nil _ _ => []
  | .node a (.node b l w m) v r => leftSpine (.node b l w m) ++ [⟨.left, a, v, r⟩]

theorem leftSpine_dir (u : ElementTree α) : ∀ F ∈ leftSpine u, F.dir = .left := by
  induction u with
  | nil => simp [leftSpine]
  | node a l v r ihl _ =>
    cases l with
    | nil => simp [leftSpine]
    | node b l₁ w l₂ =>
      intro F hF
      rw [leftSpine, List.mem_append, List.mem_singleton] at hF
      rcases hF with hF | rfl
      · exact ihl F hF
      · rfl

theorem ctxBefore_eq_nil {L : List (ElementFrame α)} (hL : ∀ F ∈ L, F.dir = .left) :
    ctxBefore Label.obj L = [] := by
  induction L with
  | nil => rfl
  | cons F L ih =>
    rw [ctxBefore, ih fun G hG => hL G (List.mem_cons_of_mem _ hG), hL F List.mem_cons_self]
    rfl

/-- The element at the root of the subtree is to be deleted below the path `C`. With a successor
that is not the son of the element, the stack is wrong from the son on, and the walk has to
stop before it gets there. -/
def SafeAt (C : List (ElementFrame α)) : ElementTree α → Prop
  | .nil => True
  | .node _ _ _ .nil => Clean C
  | .node _ .nil _ _ => Clean C
  | .node _ l v (.node b .nil w _) => Clean (⟨.right, b, w.withB v.balance, l⟩ :: C)
  | .node _ _ _ (.node _ u _ _) => StopsInside (leftSpine u)

/-- Search for `x` below the path `C`. -/
def SafeBelow (compare : α → α → ℤ) (x : α) : ElementTree α → List (ElementFrame α) → Prop
  | .nil, _ => True
  | .node a l v r, C =>
    if compare x v.obj = 0 then SafeAt C (.node a l v r)
    else if compare x v.obj < 0 then SafeBelow compare x l (⟨.left, a, v, r⟩ :: C)
    else SafeBelow compare x r (⟨.right, a, v, l⟩ :: C)

/-- Deleting `x` from the tree reaches none of the two defects. -/
def SafeDelete (compare : α → α → ℤ) (T : HBT α) (x : α) : Prop :=
  ∃ t, Stores T t ∧ SafeBelow compare x t []

/-! ## Finding the element -/

section Search

variable {h : Heap (Label α)} {t : ElementTree α}

theorem searchPath_spec (compare : α → α → ℤ) (x : α) (hr : Rep h t) (C₀ : List (ElementFrame α)) :
    ∃ C s, (∀ fuel, t.height < fuel →
        searchPath compare h x fuel t.ptr (stackOf C₀) = .ok (s.ptr, stackOf (C ++ C₀))) ∧
      t = plug C s ∧ (∀ F ∈ C, Toward compare x F) ∧
      (SafeBelow compare x t C₀ → SafeAt (C ++ C₀) s) ∧
      (s = .nil ∨ ∃ a l v r, s = .node a l v r ∧ compare x v.obj = 0) := by
  induction t generalizing C₀ with
  | nil =>
    refine ⟨[], .nil, fun fuel hf => ?_, rfl, by simp, id, Or.inl rfl⟩
    obtain ⟨n, rfl⟩ : ∃ n, fuel = n + 1 := ⟨fuel - 1, by omega⟩
    rfl
  | node a l v r ihl ihr =>
    obtain ⟨ha, hl, hr⟩ := hr
    by_cases h0 : compare x v.obj = 0
    · refine ⟨[], .node a l v r, fun fuel hf => ?_, rfl, by simp, fun hsafe => ?_, Or.inr ⟨a, l, v, r, rfl, h0⟩⟩
      · obtain ⟨n, rfl⟩ : ∃ n, fuel = n + 1 := ⟨fuel - 1, by omega⟩
        simp only [ptr_node, searchPath, load_eq ha, bind, Except.bind, h0, if_true]
        rfl
      · rw [SafeBelow, if_pos h0] at hsafe
        exact hsafe
    by_cases hlt : compare x v.obj < 0
    · obtain ⟨C, s, he, hplug, hC, hsafe, hs⟩ := ihl hl (⟨.left, a, v, r⟩ :: C₀)
      refine ⟨C ++ [⟨.left, a, v, r⟩], s, fun fuel hf => ?_, ?_, fun F hF => ?_, fun h => ?_, hs⟩
      · obtain ⟨n, rfl⟩ : ∃ n, fuel = n + 1 := ⟨fuel - 1, by omega⟩
        simp only [height] at hf
        simp only [ptr_node, searchPath, load_eq ha, bind, Except.bind, h0, hlt, if_true, if_false]
        rw [List.append_assoc]
        exact he n (by omega)
      · rw [plug_snoc, ← hplug]
        rfl
      · rcases List.mem_append.mp hF with hF | hF
        · exact hC F hF
        · rw [List.mem_singleton.mp hF]
          exact ⟨h0, if_pos hlt⟩
      · rw [SafeBelow, if_neg h0, if_pos hlt] at h
        rw [List.append_assoc]
        exact hsafe h
    · obtain ⟨C, s, he, hplug, hC, hsafe, hs⟩ := ihr hr (⟨.right, a, v, l⟩ :: C₀)
      refine ⟨C ++ [⟨.right, a, v, l⟩], s, fun fuel hf => ?_, ?_, fun F hF => ?_, fun h => ?_, hs⟩
      · obtain ⟨n, rfl⟩ : ∃ n, fuel = n + 1 := ⟨fuel - 1, by omega⟩
        simp only [height] at hf
        simp only [ptr_node, searchPath, load_eq ha, bind, Except.bind, h0, hlt, if_false]
        rw [List.append_assoc]
        exact he n (by omega)
      · rw [plug_snoc, ← hplug]
        rfl
      · rcases List.mem_append.mp hF with hF | hF
        · exact hC F hF
        · rw [List.mem_singleton.mp hF]
          exact ⟨h0, if_neg hlt⟩
      · rw [SafeBelow, if_neg h0, if_neg hlt] at h
        rw [List.append_assoc]
        exact hsafe h

theorem successorPath_spec (hr : Rep h t) (ht : t ≠ .nil) (stack : Stack) :
    ∃ b w rs, (∀ fuel, t.height ≤ fuel →
        successorPath h fuel t.ptr stack = .ok (some b, stackOf (leftSpine t) ++ stack)) ∧
      t = plug (leftSpine t) (.node b .nil w rs) := by
  induction t generalizing stack with
  | nil => exact absurd rfl ht
  | node a l v r ihl _ =>
    obtain ⟨ha, hl, -⟩ := hr
    cases l with
    | nil =>
      refine ⟨a, v, r, fun fuel hf => ?_, rfl⟩
      simp only [height] at hf
      obtain ⟨n, rfl⟩ : ∃ n, fuel = n + 1 := ⟨fuel - 1, by omega⟩
      simp only [ptr_node, successorPath, load_eq ha, bind, Except.bind]
      rfl
    | node c l w m =>
      obtain ⟨b, w', rs, he, hplug⟩ := ihl hl (by simp) ((a, .left) :: stack)
      refine ⟨b, w', rs, fun fuel hf => ?_, ?_⟩
      · rw [height] at hf
        obtain ⟨n, rfl⟩ : ∃ n, fuel = n + 1 := ⟨fuel - 1, by omega⟩
        simp only [ptr_node, successorPath, load_eq ha, bind, Except.bind]
        rw [leftSpine, stackOf, List.map_append, List.append_assoc]
        exact he n (by omega)
      · rw [leftSpine, plug_snoc, ← hplug]
        rfl

end Search

/-! ## Taking the element out -/

section Unlink

variable {T : HBT α} {C : List (ElementFrame α)} {s s' l : ElementTree α} {v w : Label α}
  {del b : Addr} {p : Option Addr} {h : Heap (Label α)}

theorem nodup_without (hp : s.addrs.Perm (del :: s'.addrs)) (hnd : (plug C s).addrs.Nodup) :
    (plug C s').addrs.Nodup ∧ del ∉ (plug C s').addrs := by
  have hperm : (plug C s).addrs.Perm (del :: (plug C s').addrs) :=
    addrs_plug.trans ((hp.append_right _).trans (addrs_plug.symm.cons _))
  rw [hperm.nodup_iff, List.nodup_cons] at hnd
  exact hnd.symm

theorem root_plug {t : ElementTree α} (hroot : T.root = (plug C t).ptr) :
    (if C = [] then s'.ptr else T.root) = (plug C s').ptr := by
  split_ifs with hC
  · rw [hC]
    rfl
  · rw [hroot, ptr_plug_of_ne_nil hC]

/-- An element with at most one son. -/
theorem spliceOut_spec (hT : Stores T (plug C s)) (hp : s.addrs.Perm (del :: s'.addrs))
    (hs' : Rep T.heap s') :
    ∃ T', spliceOut T (stackOf C) s'.ptr = .ok T' ∧ Stores T' (plug C s') ∧
      T'.height = (if C = [] then T.height - 1 else T.height) ∧ T'.num = T.num ∧
      T'.mallocFlag = T.mallocFlag ∧ T'.heap del = T.heap del := by
  obtain ⟨-, hC, hd⟩ := nodup_plug.mp hT.nodup
  obtain ⟨T', e, hC', hfr, hroot, hnum, hheight, hflag⟩ := setSon_eq (rep_plug.mp hT.rep).1 hC s'.ptr
  have hdel : del ∉ ctxAddrs C := hd del (hp.mem_iff.mpr List.mem_cons_self)
  have hT' : Stores T' (plug C s') := by
    refine ⟨hroot.trans (root_plug hT.root), rep_plug.mpr ⟨hC', ?_⟩, (nodup_without hp hT.nodup).1⟩
    exact hs'.congr fun a ha => hfr a (hd a (hp.mem_iff.mpr (List.mem_cons_of_mem _ ha)))
  have hnil : stackOf C = [] ↔ C = [] := List.map_eq_nil_iff
  by_cases hn : C = []
  · refine ⟨{ T' with height := T'.height - 1 }, ?_, ⟨hT'.root, hT'.rep, hT'.nodup⟩, ?_, hnum, hflag, hfr _ hdel⟩
    · simp only [spliceOut, e, bind, Except.bind, hnil, if_pos hn]
    · rw [if_pos hn, hheight]
  · refine ⟨T', ?_, hT', ?_, hnum, hflag, hfr _ hdel⟩
    · simp only [spliceOut, e, bind, Except.bind, hnil, if_neg hn]
    · rw [if_neg hn, hheight]

/-- The successor, with the sons of the deleted element already its own, takes its place and its
balance factor. -/
theorem replaceBy_spec {d : Dir} {r t : ElementTree α} {B : ℤ} (hroot : T.root = (plug C t).ptr)
    (hC : RepCtx h C p) (hr : Rep h (join d b w l r)) (hnd : (plug C (join d b w l r)).addrs.Nodup) :
    ∃ T' h', setSon { T with heap := h } (father (stackOf C)).1 (father (stackOf C)).2 (some b) = .ok T' ∧
      setB T'.heap (some b) B = .ok h' ∧
      Stores { T' with heap := h' } (plug C (join d b (w.withB B) l r)) ∧ T'.height = T.height ∧
      T'.num = T.num ∧ T'.mallocFlag = T.mallocFlag ∧ ∀ a, a ∉ ctxAddrs C → a ≠ b → h' a = h a := by
  obtain ⟨hnds, hndC, hd⟩ := nodup_plug.mp hnd
  obtain ⟨T', e, hC', hfr, hroot', hnum, hheight, hflag⟩ :=
    setSon_eq (T := { T with heap := h }) hC hndC (some b)
  have hbC : b ∉ ctxAddrs C := hd b (mem_addrs_join.mpr (Or.inl rfl))
  obtain ⟨hb, hrl, hrr⟩ := rep_join.mp hr
  obtain ⟨hbl, hbr, -⟩ := nodup_join.mp hnds
  obtain ⟨h', e', hb', ho⟩ := setB_ok ((hfr b hbC).trans hb) B
  have hout : ∀ a, a ∉ ctxAddrs C → a ≠ b → h' a = h a := fun a ha hab => (ho a hab).trans (hfr a ha)
  have hmem : ∀ a, a ∈ l.addrs ∨ a ∈ r.addrs → a ∉ ctxAddrs C := fun a ha =>
    hd a (mem_addrs_join.mpr (Or.inr ha))
  refine ⟨T', h', e, e', ⟨?_, rep_plug.mpr ⟨?_, rep_join.mpr ⟨hb', ?_, ?_⟩⟩, ?_⟩, hheight, hnum, hflag, hout⟩
  · rw [← root_plug hroot, ptr_join]
    exact hroot'
  · rw [ptr_join]
    exact hC'.congr fun a ha => ho a fun he => hbC (he ▸ ha)
  · exact hrl.congr fun a ha => hout a (hmem a (Or.inl ha)) fun he => hbl (he ▸ ha)
  · exact hrr.congr fun a ha => hout a (hmem a (Or.inr ha)) fun he => hbr (he ▸ ha)
  · have hp : (join d b (w.withB B) l r).addrs.Perm (join d b w l r).addrs := addrs_join.trans addrs_join.symm
    exact nodup_plug.mpr ⟨hp.nodup_iff.mpr hnds, hndC, fun a ha => hd a (hp.mem_iff.mp ha)⟩

/-- The frame of the successor in the place of the deleted element. -/
def successorFrame (b : Addr) (w v : Label α) (l : ElementTree α) : ElementFrame α :=
  ⟨.right, b, w.withB v.balance, l⟩

/-- The successor is the son of the deleted element. -/
theorem unlink_son {rs : ElementTree α} (hT : Stores T (plug C (.node del l v (.node b .nil w rs))))
    (hl : l ≠ .nil) :
    ∃ T', (∀ fuel, unlink fuel T (some del) (stackOf C) = .ok (T', stackOf (successorFrame b w v l :: C))) ∧
      Stores T' (plug (successorFrame b w v l :: C) rs) ∧ T'.height = T.height ∧ T'.num = T.num ∧
      T'.mallocFlag = T.mallocFlag ∧ T'.heap del = T.heap del := by
  obtain ⟨hC, hdel, hrl, hb, -, hrs⟩ := rep_plug.mp hT.rep
  obtain ⟨hnds, -, hd⟩ := nodup_plug.mp hT.nodup
  have hp : (HTree.node del l v (.node b .nil w rs)).addrs.Perm (del :: (join .left b w l rs).addrs) := by
    refine List.Perm.cons _ ?_
    simp only [addrs, join, List.nil_append]
    exact List.perm_middle
  obtain ⟨hnd', hdel'⟩ := nodup_without hp hT.nodup
  have hbC : b ∉ ctxAddrs C := hd b (by simp [addrs])
  obtain ⟨hbl, hbrs, -⟩ := nodup_join.mp (nodup_plug.mp hnd').1
  obtain ⟨h₁, e₁, hb₁, o₁⟩ := setChild_ok hb .left l.ptr
  have hr₁ : Rep h₁ (join .left b w l rs) := ⟨hb₁,
    hrl.congr fun a ha => o₁ a fun he => hbl (he ▸ ha), hrs.congr fun a ha => o₁ a fun he => hbrs (he ▸ ha)⟩
  obtain ⟨T', h', e₂, e₃, hT', hheight, hnum, hflag, hfr⟩ := replaceBy_spec (T := T) (B := v.balance)
    hT.root (hC.congr fun a ha => o₁ a fun he => hbC (he ▸ ha)) hr₁ hnd'
  have hdb : del ≠ b := fun he => hdel' (addrs_plug.mem_iff.mpr (List.mem_append_left _
    (mem_addrs_join.mpr (Or.inl he))))
  refine ⟨{ T' with heap := h' }, fun fuel => ?_, hT', hheight, hnum, hflag, ?_⟩
  · obtain ⟨c, hc⟩ := Option.ne_none_iff_exists'.mp (mt ptr_eq_none.mp hl)
    rw [hc] at e₁ hdel
    simp only [unlink, load_eq hdel, load_eq hb, ptr_node, ptr_nil, bind, Except.bind, e₁, e₂, e₃]
    rfl
  · exact (hfr del (hd del (by simp [addrs])) hdb).trans (o₁ del hdb)

/-- The successor `b` hangs on the path `M` below the deleted element. -/
theorem relinkSuccessor_spec {M : List (ElementFrame α)} {F : ElementFrame α} {rs : ElementTree α}
    (hr : Rep h (plug (F :: M) (.node b .nil w rs))) (hnd : (plug (F :: M) (.node b .nil w rs)).addrs.Nodup)
    (hF : F.dir = .left) (hl : Rep h l) (hbl : b ∉ l.addrs) (hlM : ∀ a ∈ l.addrs, a ∉ ctxAddrs (F :: M)) :
    ∃ h₁ h₂ h₃, setChild h (some b) .left l.ptr = .ok h₁ ∧ h₁ b = some ⟨w, l.ptr, rs.ptr⟩ ∧
      setChild h₁ (some F.addr) .left rs.ptr = .ok h₂ ∧
      setChild h₂ (some b) .right (plug (F :: M) rs).ptr = .ok h₃ ∧
      Rep h₃ (join .left b w l (plug (F :: M) rs)) ∧
      ∀ a, a ≠ b → a ∉ ctxAddrs (F :: M) → h₃ a = h a := by
  obtain ⟨hM, hb, -, hrs⟩ := rep_plug.mp hr
  obtain ⟨hndb, hndM, hd⟩ := nodup_plug.mp hnd
  have hbM : b ∉ ctxAddrs (F :: M) := hd b (by simp [addrs])
  have hbrs : b ∉ rs.addrs := by
    simp only [addrs, List.nil_append, List.nodup_cons] at hndb
    exact hndb.1
  obtain ⟨h₁, e₁, b₁, o₁⟩ := setChild_ok hb .left l.ptr
  obtain ⟨h₂, e₂, hM₂, o₂⟩ := setChild_ctx (hM.congr fun a ha => o₁ a fun he => hbM (he ▸ ha)) hndM rs.ptr
  obtain ⟨h₃, e₃, b₃, o₃⟩ := setChild_ok ((o₂ b hbM).trans b₁) .right (plug (F :: M) rs).ptr
  rw [hF] at e₂
  have hout : ∀ a, a ≠ b → a ∉ ctxAddrs (F :: M) → h₃ a = h a := fun a hab ha =>
    (o₃ a hab).trans ((o₂ a ha).trans (o₁ a hab))
  refine ⟨h₁, h₂, h₃, e₁, b₁, e₂, e₃, ⟨b₃, ?_, rep_plug.mpr ⟨?_, ?_⟩⟩, hout⟩
  · exact hl.congr fun a ha => hout a (fun he => hbl (he ▸ ha)) (hlM a ha)
  · exact hM₂.congr fun a ha => o₃ a fun he => hbM (he ▸ ha)
  · exact hrs.congr fun a ha => hout a (fun he => hbrs (he ▸ ha)) (hd a (by simp [addrs, ha]))

/-- The successor is further down. The stack that comes back lists the son of the deleted element
where the successor now is, and with the direction of the successor. -/
theorem unlink_deep {u rt : ElementTree α} {temp : Addr} {vt : Label α}
    (hT : Stores T (plug C (.node del l v (.node temp u vt rt)))) (hl : l ≠ .nil) (hu : u ≠ .nil) :
    ∃ T' b w rs, u = plug (leftSpine u) (.node b .nil w rs) ∧
      (∀ fuel, u.height ≤ fuel → unlink fuel T (some del) (stackOf C) =
        .ok (T', stackOf (leftSpine u) ++ (temp, .right) :: stackOf C)) ∧
      Stores T' (plug (leftSpine u ++ ⟨.left, temp, vt, rt⟩ :: successorFrame b w v l :: C) rs) ∧
      T'.height = T.height ∧ T'.num = T.num ∧ T'.mallocFlag = T.mallocFlag ∧ T'.heap del = T.heap del ∧
      del ∉ (plug (leftSpine u ++ ⟨.left, temp, vt, rt⟩ :: successorFrame b w v l :: C) rs).addrs := by
  obtain ⟨hC, hdel, hrl, hr⟩ := rep_plug.mp hT.rep
  obtain ⟨htemp, hru, -⟩ := id hr
  obtain ⟨b, w, rs, hpath, hplug⟩ := successorPath_spec hru hu ((temp, .right) :: stackOf C)
  -- the path from the successor up to the son of the deleted element
  obtain ⟨F, M, hM, hF⟩ : ∃ F M, leftSpine u ++ [⟨.left, temp, vt, rt⟩] = F :: M ∧ F.dir = .left ∧
      (father (stackOf (leftSpine u) ++ (temp, .right) :: stackOf C)).1 = some F.addr := by
    rcases hsp : leftSpine u with _ | ⟨F, M⟩
    · exact ⟨_, _, rfl, rfl, rfl⟩
    · exact ⟨F, _, rfl, leftSpine_dir u F (hsp ▸ List.mem_cons_self), rfl⟩
  have hson : HTree.node temp u vt rt = plug (F :: M) (.node b .nil w rs) := by
    rw [← hM, plug_snoc, ← hplug]
    rfl
  have hptr : (plug (F :: M) rs).ptr = some temp := by rw [← hM, plug_snoc, ptr_fill]
  rw [hson] at hr hT
  have hp : (HTree.node del l v (plug (F :: M) (.node b .nil w rs))).addrs.Perm
      (del :: (join .left b w l (plug (F :: M) rs)).addrs) := by
    refine List.Perm.cons _ ?_
    refine (addrs_plug.append_left _).trans ?_
    simp only [addrs, join, List.nil_append, List.cons_append]
    exact List.perm_middle.trans ((addrs_plug.symm.append_left _).cons _)
  obtain ⟨hnd', hdel'⟩ := nodup_without hp hT.nodup
  obtain ⟨hnds, -, hd⟩ := nodup_plug.mp hT.nodup
  obtain ⟨hdl, hdr, -, hndr, hlr⟩ := nodup_join.mp (show (join .left del v l _).addrs.Nodup from hnds)
  obtain ⟨hbl, -, -⟩ := nodup_join.mp (nodup_plug.mp hnd').1
  have hmemr : ∀ a, a = b ∨ a ∈ ctxAddrs (F :: M) → a ∈ (plug (F :: M) (.node b .nil w rs)).addrs := by
    rintro a (rfl | ha)
    · exact addrs_plug.mem_iff.mpr (List.mem_append_left _ (by simp [addrs]))
    · exact addrs_plug.mem_iff.mpr (List.mem_append_right _ ha)
  obtain ⟨h₁, h₂, h₃, e₁, b₁, e₂, e₃, hr₃, o₃⟩ := relinkSuccessor_spec hr hndr hF.1 hrl hbl
    fun a ha hM => hlr a ha (hmemr a (Or.inr hM))
  have hdel₃ : del ≠ b ∧ del ∉ ctxAddrs (F :: M) :=
    ⟨fun he => hdr (hmemr del (Or.inl he)), fun hm => hdr (hmemr del (Or.inr hm))⟩
  have hC₃ : RepCtx h₃ C (some del) := by
    refine hC.congr fun a ha => o₃ a (fun he => ?_) fun hm => ?_
    · exact hd a (mem_addrs_join (d := .left).mpr (Or.inr (Or.inr (hmemr a (Or.inl he))))) ha
    · exact hd a (mem_addrs_join (d := .left).mpr (Or.inr (Or.inr (hmemr a (Or.inr hm))))) ha
  obtain ⟨T', h', e₄, e₅, hT', hheight, hnum, hflag, hfr⟩ :=
    replaceBy_spec (T := T) (B := v.balance) hT.root hC₃ hr₃ hnd'
  have htree : plug C (join .left b (w.withB v.balance) l (plug (F :: M) rs)) =
      plug (leftSpine u ++ ⟨.left, temp, vt, rt⟩ :: successorFrame b w v l :: C) rs := by
    rw [plug_append, ← hM, plug_append]
    rfl
  rw [htree] at hT'
  have hnode : h' del = T.heap del :=
    (hfr del (hd del (by simp [addrs])) hdel₃.1).trans (o₃ del hdel₃.1 hdel₃.2)
  refine ⟨{ T' with heap := h' }, b, w, rs, hplug, fun fuel hf => ?_, hT', hheight, hnum, hflag, hnode, ?_⟩
  · obtain ⟨c, hc⟩ := Option.ne_none_iff_exists'.mp (mt ptr_eq_none.mp hl)
    obtain ⟨e, he⟩ := Option.ne_none_iff_exists'.mp (mt ptr_eq_none.mp hu)
    have hpath := hpath fuel hf
    rw [hc] at e₁ hdel
    rw [he] at htemp hpath
    rw [hptr] at e₃
    simp only [unlink, load_eq hdel, load_eq htemp, load_eq b₁, ptr_node, bind, Except.bind, hpath, e₁, hF.2,
      e₂, e₃, e₄, e₅]
  · have hsame : (plug C (join .left b (w.withB v.balance) l (plug (F :: M) rs))).addrs.Perm
        (plug C (join .left b w l (plug (F :: M) rs))).addrs :=
      addrs_plug.trans (((addrs_join.trans addrs_join.symm).append_right _).trans addrs_plug.symm)
    rw [← htree, hsame.mem_iff]
    exact hdel'

end Unlink

/-! ## The operation -/

section Delete

variable {T : HBT α} {C : List (ElementFrame α)} {l r : ElementTree α} {v : Label α} {del : Addr}

/-- Unlinking and rebalancing give a balanced tree without the element, and do not touch it. -/
def TakesOut (T : HBT α) (C : List (ElementFrame α)) (del : Addr) (l r : ElementTree α) : Prop :=
  ∃ T₁ stack T₂ t₂, (∀ fuel, r.height ≤ fuel → unlink fuel T (some del) (stackOf C) = .ok (T₁, stack)) ∧
    rebalanceStack stack T₁ = .ok T₂ ∧ Stores T₂ t₂ ∧ HeightBalanced t₂ ∧ T₂.height = t₂.height ∧
    T₂.num = T.num ∧ T₂.mallocFlag = T.mallocFlag ∧ del ∉ t₂.addrs ∧ T₂.heap del = T.heap del ∧
    inOrder t₂ = ctxBefore Label.obj C ++ (inOrder l ++ inOrder r) ++ ctxAfter Label.obj C

/-- The walk on the true path, after an unlink that left `s` under it. -/
theorem takesOut_of_clean {T₁ : HBT α} {D : List (ElementFrame α)} {s : ElementTree α}
    (hun : ∀ fuel, r.height ≤ fuel → unlink fuel T (some del) (stackOf C) = .ok (T₁, stackOf D))
    (hD : D ≠ []) (hT₁ : Stores T₁ (plug D s)) (hfit : FitsCtx Label.balance D (s.height + 1))
    (hs : HeightBalanced s) (hclean : Clean D) (hheight : T₁.height = ctxHeight D (s.height + 1))
    (hnum : T₁.num = T.num) (hflag : T₁.mallocFlag = T.mallocFlag) (hdel : T₁.heap del = T.heap del)
    (hout : del ∉ (plug D s).addrs) (helems : inOrder (plug D s) =
      ctxBefore Label.obj C ++ (inOrder l ++ inOrder r) ++ ctxAfter Label.obj C) : TakesOut T C del l r := by
  obtain ⟨T₂, t₂, he, hw, hh⟩ := rebalanceStack_clean hD hT₁ hfit hs hclean hheight
  exact ⟨T₁, stackOf D, T₂, t₂, hun, he, hw.stores, hw.balanced, hh, hw.num.trans hnum,
    hw.mallocFlag.trans hflag, fun hm => hout (hw.perm.mem_iff.mp hm), (hw.frame del hout).trans hdel,
    hw.elems.trans helems⟩

/-- An element with at most one son `s`. -/
theorem takesOut_splice {s : ElementTree α} (hT : Stores T (plug C (.node del l v r)))
    (hbal : HeightBalanced (plug C (.node del l v r))) (hheight : T.height = (plug C (.node del l v r)).height)
    (hp : (l.addrs ++ r.addrs).Perm s.addrs) (hs : Rep T.heap s) (hsb : HeightBalanced s)
    (hh : (HTree.node del l v r).height = s.height + 1) (hins : inOrder s = inOrder l ++ inOrder r)
    (hun : ∀ fuel T₁, spliceOut T (stackOf C) s.ptr = .ok T₁ →
      unlink fuel T (some del) (stackOf C) = .ok (T₁, stackOf C)) (hclean : Clean C) : TakesOut T C del l r := by
  have hperm : (HTree.node del l v r).addrs.Perm (del :: s.addrs) := List.Perm.cons _ hp
  obtain ⟨T₁, e₁, hT₁, hh₁, hnum, hflag, hdel⟩ := spliceOut_spec hT hperm hs
  have hout := (nodup_without hperm hT.nodup).2
  rw [height_plug, hh] at hheight
  rw [HeightBalanced, balanced_plug, hh] at hbal
  have helems : inOrder (plug C s) =
      ctxBefore Label.obj C ++ (inOrder l ++ inOrder r) ++ ctxAfter Label.obj C := by
    rw [inOrder, elems_plug, ← hins]
  rcases eq_or_ne C [] with rfl | hC
  · refine ⟨T₁, [], T₁, s, fun fuel _ => hun fuel T₁ e₁, rfl, hT₁, hsb, ?_, hnum, hflag, hout, hdel, helems⟩
    rw [hh₁, if_pos rfl, hheight]
    rfl
  · rw [if_neg hC] at hh₁
    exact takesOut_of_clean (fun fuel _ => hun fuel T₁ e₁) hC hT₁ hbal.1 hsb hclean (hh₁.trans hheight) hnum
      hflag hdel hout helems

/-- The successor is the son of the element. -/
theorem takesOut_son {b : Addr} {w : Label α} {rs : ElementTree α} (hl : l ≠ .nil)
    (hT : Stores T (plug C (.node del l v (.node b .nil w rs))))
    (hbal : HeightBalanced (plug C (.node del l v (.node b .nil w rs))))
    (hheight : T.height = (plug C (.node del l v (.node b .nil w rs))).height)
    (hclean : Clean (successorFrame b w v l :: C)) : TakesOut T C del l (.node b .nil w rs) := by
  obtain ⟨hfitC, ⟨hv, hv1, hv2⟩, hbl, -, -, hbrs⟩ := balanced_plug.mp hbal
  obtain ⟨T₁, e₁, hT₁, hh₁, hnum, hflag, hdel⟩ := unlink_son hT hl
  have hr : (HTree.node b .nil w rs).height = rs.height + 1 := by simp [height]
  have hnode : (HTree.node del l v (.node b .nil w rs)).height =
      (successorFrame b w v l).height (rs.height + 1) := by
    simp only [height, Frame.height, successorFrame]
    omega
  rw [hr] at hv
  rw [height_plug, hnode] at hheight
  rw [hnode] at hfitC
  have hperm : (HTree.node del l v (.node b .nil w rs)).addrs.Perm
      (del :: ((successorFrame b w v l).fill rs).addrs) := by
    refine List.Perm.cons _ ?_
    simp only [addrs, Frame.fill, successorFrame, join, List.nil_append]
    exact List.perm_middle
  refine takesOut_of_clean (fun fuel _ => e₁ fuel) (List.cons_ne_nil _ _) hT₁ ⟨⟨⟨?_, hv1, hv2⟩, hbl⟩, hfitC⟩
    hbrs hclean (hh₁.trans hheight) hnum hflag hdel (nodup_without hperm hT.nodup).2 ?_
  · simp only [successorFrame, withB_balance, Dir.sign, one_mul]
    exact hv
  · rw [plug_cons, inOrder, elems_plug]
    simp [successorFrame, Frame.fill, join, elems]

/-- The successor is further down and the walk stops on its path. -/
theorem takesOut_deep {temp : Addr} {vt : Label α} {u rt : ElementTree α} (hl : l ≠ .nil) (hu : u ≠ .nil)
    (hT : Stores T (plug C (.node del l v (.node temp u vt rt))))
    (hbal : HeightBalanced (plug C (.node del l v (.node temp u vt rt))))
    (hheight : T.height = (plug C (.node del l v (.node temp u vt rt))).height)
    (hstop : StopsInside (leftSpine u)) : TakesOut T C del l (.node temp u vt rt) := by
  obtain ⟨hfitC, ⟨hv, hv1, hv2⟩, hbl, ⟨hvt, hvt1, hvt2⟩, hbu, hbrt⟩ := balanced_plug.mp hbal
  obtain ⟨T₁, b, w, rs, hplug, e₁, hT₁, hh₁, hnum, hflag, hdel, hout⟩ := unlink_deep hT hl hu
  rw [hplug, balanced_plug] at hbu
  obtain ⟨hfitL, -, -, hbrs⟩ := hbu
  have hrs : (HTree.node b .nil w rs).height = rs.height + 1 := by simp [height]
  rw [hrs] at hfitL
  obtain ⟨T₂, t₂, e₂, hw, hh₂, hTh₂⟩ := rebalanceStack_stops ((temp, .right) :: stackOf C) hT₁ hfitL
    hbrs hstop
  have hu₂ : t₂.height = u.height := by
    rw [hh₂, ← hrs, ← height_plug, ← hplug]
  -- above the spine nothing changed height
  let D : List (ElementFrame α) := ⟨.left, temp, vt, rt⟩ :: successorFrame b w v l :: C
  have hnode : ctxHeight D t₂.height = (plug C (.node del l v (.node temp u vt rt))).height := by
    rw [height_plug, hu₂]
    refine congrArg (ctxHeight C) ?_
    simp only [height, Frame.height, successorFrame]
    omega
  refine ⟨T₁, _, T₂, plug D t₂, fun fuel hf => e₁ fuel (le_trans ?_ hf), e₂, hw.stores, ?_, ?_,
    hw.num.trans hnum, hw.mallocFlag.trans hflag, fun hm => hout ?_, ?_, ?_⟩
  · simp only [height]
    omega
  · refine balanced_plug.mpr ⟨⟨⟨⟨?_, hvt1, hvt2⟩, hbrt⟩, ⟨⟨?_, hv1, hv2⟩, hbl⟩, ?_⟩, hw.balanced⟩
    · simp only [Dir.sign, hu₂]
      omega
    · simp only [successorFrame, withB_balance, Dir.sign, one_mul, Frame.height, hu₂]
      exact hv
    · have hk : (successorFrame b w v l).height ((⟨.left, temp, vt, rt⟩ : ElementFrame α).height t₂.height) =
          (HTree.node del l v (.node temp u vt rt)).height := by
        simp only [height, Frame.height, successorFrame, hu₂]
        omega
      rw [hk]
      exact hfitC
  · rw [hTh₂, hh₁, hheight, height_plug D, hnode]
  · rw [plug_append, addrs_plug.mem_iff, List.mem_append]
    rw [addrs_plug.mem_iff, List.mem_append] at hm
    exact hm.imp_left hw.perm.mem_iff.mp
  · refine (hw.frame del ?_).trans hdel
    rw [← plug_append]
    exact hout
  · rw [inOrder, elems_plug_congr _ hw.elems, plug_cons, plug_cons, elems_plug]
    have hul : elems Label.obj u = elems Label.obj (plug (leftSpine u) (.node b .nil w rs)) := congrArg _ hplug
    rw [elems_plug] at hul
    have hbefore := ctxBefore_eq_nil (leftSpine_dir u)
    simp only [successorFrame, Frame.fill, join, elems, hul, hbefore, elems_plug]
    simp [Label.withB]

theorem takesOut_of_safe (hT : Stores T (plug C (.node del l v r)))
    (hbal : HeightBalanced (plug C (.node del l v r))) (hheight : T.height = (plug C (.node del l v r)).height)
    (hsafe : SafeAt C (.node del l v r)) : TakesOut T C del l r := by
  obtain ⟨-, hdel, hrl, hrr⟩ := rep_plug.mp hT.rep
  obtain ⟨hfitC, ⟨hv, hv1, hv2⟩, hbl, hbr⟩ := balanced_plug.mp hbal
  cases r with
  | nil =>
    refine takesOut_splice hT hbal hheight ?_ hrl hbl ?_ ?_ (fun fuel T₁ he => ?_) hsafe
    · simp [addrs]
    · simp [height]
    · simp [elems]
    · simp only [unlink, load_eq hdel, ptr_nil, bind, Except.bind, he]
  | node temp u vt rt =>
    cases l with
    | nil =>
      refine takesOut_splice hT hbal hheight ?_ hrr hbr ?_ ?_ (fun fuel T₁ he => ?_) hsafe
      · simp [addrs]
      · simp [height]
      · simp [elems]
      · simp only [unlink, load_eq hdel, ptr_nil, ptr_node, bind, Except.bind]
        rw [ptr_node] at he
        rw [he]
    | node c l₁ vl l₂ =>
      cases u with
      | nil => exact takesOut_son (by simp) hT hbal hheight hsafe
      | node e u₁ vu u₂ => exact takesOut_deep (by simp) (by simp) hT hbal hheight hsafe

variable {κ : Type} [LinearOrder κ] {key : α → κ} {t : ElementTree α}

theorem rep_unique {h : Heap (Label α)} {t t' : ElementTree α} (ht : Rep h t) (ht' : Rep h t')
    (hp : t.ptr = t'.ptr) : t = t' := by
  induction t generalizing t' with
  | nil => exact (ptr_eq_none.mp hp.symm).symm
  | node a l v r ihl ihr =>
    obtain ⟨l', v', r', rfl⟩ := ptr_eq_some.mp hp.symm
    obtain ⟨ha, hl, hr⟩ := ht
    obtain ⟨ha', hl', hr'⟩ := ht'
    rw [ha, Option.some.injEq, Node.mk.injEq] at ha'
    rw [ihl hl hl' ha'.2.1, ihr hr hr' ha'.2.2, ha'.1]

/-- The tree without the deleted element: nothing else has its key. -/
theorem filter_ne_key {A B : List α} {o : α} (hs : (A ++ o :: B).Pairwise fun a b => key a < key b)
    (ho : key o = key x) : (A ++ o :: B).filter (fun a => key a ≠ key x) = A ++ B := by
  rw [List.pairwise_append, List.pairwise_cons] at hs
  rw [List.filter_append, List.filter_cons]
  have hA : A.filter (fun a => key a ≠ key x) = A := by
    rw [List.filter_eq_self]
    intro a ha
    simpa [← ho] using (hs.2.2 a ha o List.mem_cons_self).ne
  have hB : B.filter (fun a => key a ≠ key x) = B := by
    rw [List.filter_eq_self]
    intro b hb
    simpa [← ho] using (hs.2.1.1 b hb).ne'
  rw [hA, hB]
  simp [ho]

/-- A deletion does what it is for: it returns, exactly the element with the key is gone, and the
tree is valid again; an absent key is reported and nothing changes. -/
def DeletesRight (compare : α → α → ℤ) (key : α → κ) (T : HBT α) (x : α) : Prop :=
  ∃ t, Valid key T t ∧ ∃ T' t' ret, Returns (fun fuel => hbtDelete compare fuel x T) (T', ret) ∧
    Valid key T' t' ∧ inOrder t' = (inOrder t).filter (fun o => key o ≠ key x) ∧
    ((∀ o ∈ inOrder t, key o ≠ key x) → T' = T ∧ ret = .notFound) ∧
    ((∃ o ∈ inOrder t, key o = key x) → ret ≠ .notFound)

theorem hbtDelete_right (hcmp : Compares compare key) (hv : Valid key T t) (hsafe : SafeDelete compare T x) :
    DeletesRight compare key T x := by
  obtain ⟨t₀, hT₀, hsafe⟩ := hsafe
  obtain rfl : t₀ = t := rep_unique hT₀.rep hv.stores.rep (hT₀.root.symm.trans hv.stores.root)
  refine ⟨t₀, hv, ?_⟩
  obtain ⟨C, s, hpath, rfl, hC, hsafeAt, hs⟩ := searchPath_spec compare x hT₀.rep []
  rw [List.append_nil] at hsafeAt
  simp only [List.append_nil] at hpath
  have hbounds := toward_bounds hcmp hC hv.sorted
  rcases hs with rfl | ⟨del, l, v, r, rfl, h0⟩
  · have hne : ∀ o ∈ inOrder (plug C .nil), key o ≠ key x := by
      intro o ho
      rw [inOrder, elems_plug] at ho
      simp only [elems, List.append_nil, List.mem_append] at ho
      rcases ho with ho | ho
      · exact (hbounds.1 o ho).ne
      · exact (hbounds.2 o ho).ne'
    refine ⟨T, plug C .nil, .notFound, ⟨(plug C (.nil : ElementTree α)).height + 1, fun fuel hf => ?_⟩, hv,
      ?_, fun _ => ⟨rfl, rfl⟩, fun hex => ?_⟩
    · have he := hpath fuel hf
      rw [← hv.stores.root] at he
      simp only [hbtDelete, show stackOf ([] : List (ElementFrame α)) = [] from rfl] at he ⊢
      simp only [he, bind, Except.bind, ptr_nil]
    · rw [List.filter_eq_self.mpr]
      intro o ho
      simpa using hne o ho
    · obtain ⟨o, ho, hk⟩ := hex
      exact absurd hk (hne o ho)
  · have hk : key v.obj = key x := ((hcmp x v.obj).2.mp h0).symm
    obtain ⟨T₁, stack, T₂, t₂, hun, hre, hT₂, hbal₂, hh₂, hnum, hflag, hout, hnode, helems⟩ :=
      takesOut_of_safe hv.stores hv.balanced hv.height (hsafeAt hsafe)
    have hdel : T.heap del = some ⟨v, l.ptr, r.ptr⟩ := (rep_plug.mp hv.stores.rep).2.1
    have hold : inOrder (plug C (.node del l v r)) = (ctxBefore Label.obj C ++ inOrder l) ++
        v.obj :: (inOrder r ++ ctxAfter Label.obj C) := by
      rw [inOrder, elems_plug]
      simp [elems]
    have hnew : inOrder t₂ = (ctxBefore Label.obj C ++ inOrder l) ++ (inOrder r ++ ctxAfter Label.obj C) := by
      rw [helems]
      simp
    have hsorted := hv.sorted
    rw [hold] at hsorted
    have hfilter := filter_ne_key hsorted hk
    refine ⟨{ T₂ with heap := freeElement T₂.heap (some del), num := T₂.num - 1 }, t₂,
      if T₂.mallocFlag then .object v.obj else .deleted,
      ⟨(plug C (.node del l v r)).height + 1, fun fuel hf => ?_⟩,
      ⟨⟨hT₂.root, ?_, hT₂.nodup⟩, ?_, hbal₂, ?_, hh₂⟩, ?_, fun hne => ?_, fun _ => ?_⟩
    · have he := hpath fuel hf
      rw [← hv.stores.root] at he
      have hheight : r.height ≤ fuel := by
        have h1 := le_ctxHeight C (HTree.node del l v r).height
        rw [height_plug] at hf
        simp only [height] at h1 hf
        omega
      simp only [hbtDelete, show stackOf ([] : List (ElementFrame α)) = [] from rfl] at he ⊢
      simp only [he, bind, Except.bind, ptr_node, hun fuel hheight, hre, load_eq (hnode.trans hdel)]
    · exact hT₂.rep.congr fun a ha => Function.update_of_ne (fun hea : a = del => hout (hea ▸ ha)) _ _
    · rw [hnew, ← hfilter]
      exact hsorted.filter _
    · have hlen := hv.num
      rw [hold, List.length_append, List.length_cons] at hlen
      rw [hnum, hnew, List.length_append, hlen]
      rfl
    · rw [hnew, hold, hfilter]
    · exact absurd hk (hne v.obj (by rw [hold]; simp))
    · split_ifs <;> simp

end Delete

end ParFlow.Hbt
