import ParFlow.Geom.SolidDefs

/-! A triangle intersection list stays linked and sorted through every run of insertions and deletions. An insertion
adds one member, and a deletion takes out one member, unless it is the head of a longer list, whose rest is lost. -/

namespace ParFlow.Geom

open FuelRun LinkedChain

variable {K : Type} [LinearOrder K]

/-- Members are ordered by their values, and members of one value by their triangles. -/
def ListMember.key (m : ListMember K) : K ×ₗ ℤ := toLex (m.value, m.triangleId)

/-- The members of a list from its head to `NULL`, in order. -/
structure IsList (S : ListState K) (l : List (Addr × ListMember K)) : Prop where
  chain : Chain S.heap S.head l
  sorted : l.Pairwise fun x y => x.2.key ≤ y.2.key

/-- Nothing changes but at an address and at the members of a list. -/
def Frame (S S' : ListState K) (l : List (Addr × ListMember K)) (a : Addr) : Prop :=
  ∀ b, b ≠ a → b ∉ addrs l → S'.heap b = S.heap b

/-- The member at an address is not in the list. -/
def IsNew (S : ListState K) (a : Addr) : Prop := (∃ c, S.heap a = some c) ∧ ∀ l, Chain S.heap S.head l → a ∉ addrs l

/-- An insertion adds exactly the member at the address. -/
def InsertsExactly (S : ListState K) (l : List (Addr × ListMember K)) (a : Addr) : Prop :=
  ∃ l₁ m next l₂ S', l = l₁ ++ l₂ ∧ S.heap a = some ⟨m, next⟩ ∧ Returns (fun fuel => listInsert fuel (some a) S) S' ∧
    IsList S' (l₁ ++ (a, m) :: l₂) ∧ Frame S S' l a

/-- A deletion takes out exactly the member between the two lists. -/
def DeletesExactly (S : ListState K) (l₁ : List (Addr × ListMember K)) (a : Addr) (m : ListMember K)
    (l₂ : List (Addr × ListMember K)) : Prop :=
  ∃ S', Returns (fun fuel => listDelete fuel (some a) S) (S', true) ∧ IsList S' (l₁ ++ l₂) ∧ S'.heap a = none ∧
    Frame S S' (l₁ ++ (a, m) :: l₂) a

/-- The list is linked and sorted. A new member is inserted exactly, a member is deleted exactly when it is not the
head of a longer list, and what is no member is not deleted. -/
structure IsExact (S : ListState K) (l : List (Addr × ListMember K)) : Prop extends IsList S l where
  inserts : ∀ a, IsNew S a → InsertsExactly S l a
  deletes : ∀ l₁ a m l₂, l = l₁ ++ (a, m) :: l₂ → (l₁ = [] → l₂ = []) → DeletesExactly S l₁ a m l₂
  absent : ∀ member, (∀ a ∈ addrs l, member ≠ some a) → Returns (fun fuel => listDelete fuel member S) (S, false)

/-- Every member but the first holds, in the part of its cell that `previous` reads, the member before it. -/
def IsBackLinked (previous : ChainCell (ListMember K) → Option Addr) (S : ListState K) (l : List (Addr × ListMember K)) : Prop :=
  l.IsChain fun x y => ∃ c, S.heap y.1 = some c ∧ previous c = some x.1

/-- The lists reached from an empty one by calls that return. -/
inductive ReachableList : ListState K → Prop where
  | empty (h : Heap (ListMember K)) : ReachableList ⟨none, h⟩
  | new {S : ListState K} {a : Addr} (h : ReachableList S) (ha : S.heap a = none) (value : K)
      (normalComponent triangleId : ℤ) :
      ReachableList { S with heap := newListMember S.heap a value normalComponent triangleId }
  | insert {S S' : ListState K} {a : Addr} (h : ReachableList S) (ha : IsNew S a)
      (hret : Returns (fun fuel => listInsert fuel (some a) S) S') : ReachableList S'
  | delete {S S' : ListState K} {member : Option Addr} {deleted : Bool} (h : ReachableList S)
      (hret : Returns (fun fuel => listDelete fuel member S) (S', deleted)) : ReachableList S'

section

variable {S : ListState K} {l l₁ l₂ : List (Addr × ListMember K)} {a : Addr} {m : ListMember K} {member : Option Addr}

/-! ## Insertion -/

theorem listInsertStops_iff (c m : ListMember K) : listInsertStops c m = true ↔ m.key ≤ c.key := by
  unfold listInsertStops ListMember.key
  rw [Prod.Lex.toLex_le_toLex]
  split_ifs with hgt heq
  · simp [hgt]
  · simp [heq]
  · simp only [false_iff, not_or, not_and]
    exact ⟨hgt, fun h => absurd h.symm heq⟩

/-- The loop of `ListInsert` keeps `next_member` one member ahead. -/
theorem listInsertLoop_eq_walk {h : Heap (ListMember K)} {next : Option Addr} (ha : h a = some ⟨m, next⟩) (fuel : ℕ)
    {p : Option Addr} (hs : Chain h p l) (previous : Option Addr) {ahead : Option Addr}
    (hahead : fetchNext h p ahead = .ok ahead) :
    listInsertLoop h (some a) fuel previous p ahead = walk h (fun _ c => listInsertStops c m) fuel previous p := by
  induction fuel generalizing p l previous ahead with
  | zero => rfl
  | succ fuel ih =>
    cases l with
    | nil =>
      obtain rfl : p = none := hs
      rfl
    | cons x l =>
      obtain ⟨rfl, q, hx, hs⟩ := hs
      rw [fetchNext_eq hx] at hahead
      obtain rfl := Except.ok.inj hahead
      unfold listInsertLoop walk
      rw [load_eq hx, load_eq ha]
      show (if _ then _ else _) = (if _ then _ else _)
      dsimp only
      split_ifs
      · rfl
      · cases l with
        | nil =>
          obtain rfl : q = none := hs
          exact ih (l := []) rfl _ rfl
        | cons y l =>
          obtain ⟨rfl, r, hy, hs'⟩ := hs
          rw [fetchNext_eq hy]
          exact ih (l := y :: l) ⟨rfl, r, hy, hs'⟩ _ (fetchNext_eq hy r)

/-- The new member stands behind the smaller ones and in front of the others. -/
theorem sorted_insert (hl : (l₁ ++ l₂).Pairwise fun x y => x.2.key ≤ y.2.key) (h₁ : ∀ x ∈ l₁, x.2.key < m.key)
    (h₂ : ∀ x ∈ l₂.head?, m.key ≤ x.2.key) : (l₁ ++ (a, m) :: l₂).Pairwise fun x y => x.2.key ≤ y.2.key := by
  obtain ⟨hl₁, hl₂, hcross⟩ := List.pairwise_append.mp hl
  have hbehind : ∀ x ∈ l₂, m.key ≤ x.2.key := by
    intro x hx
    cases l₂ with
    | nil => exact absurd hx List.not_mem_nil
    | cons y l₂ =>
      have hy := h₂ y rfl
      rcases List.mem_cons.mp hx with rfl | hx
      · exact hy
      · exact hy.trans (List.rel_of_pairwise_cons hl₂ hx)
  refine List.pairwise_append.mpr ⟨hl₁, List.pairwise_cons.mpr ⟨hbehind, hl₂⟩, ?_⟩
  intro x hx y hy
  rcases List.mem_cons.mp hy with rfl | hy
  · exact (h₁ x hx).le
  · exact hcross x hx y hy

/-- What is left of `ListInsert` behind its loop. -/
theorem listInsert_eq {next : Option Addr} (hs : Chain S.heap S.head (l₁ ++ l₂)) (ha : S.heap a = some ⟨m, next⟩)
    (h₁ : ∀ x ∈ l₁, listInsertStops x.2 m = false) (h₂ : ∀ x ∈ l₂.head?, listInsertStops x.2 m = true) (n : ℕ) :
    listInsert (n + (l₁.length + 1)) (some a) S =
      (lastOr none l₁).elim (.ok ⟨some a, Function.update S.heap a (some ⟨m, ptr l₂⟩)⟩) (fun p => do
        let h ← setNext (Function.update S.heap a (some ⟨m, ptr l₂⟩)) (some p) (some a)
        .ok { S with heap := h }) := by
  have hfirst : ∃ ahead, fetchNext S.heap S.head none = .ok ahead ∧ fetchNext S.heap S.head ahead = .ok ahead := by
    cases hlist : l₁ ++ l₂ with
    | nil =>
      rw [hlist] at hs
      rw [show S.head = none from hs]
      exact ⟨none, rfl, rfl⟩
    | cons x l =>
      rw [hlist] at hs
      obtain ⟨hhead, q, hx, -⟩ := hs
      rw [hhead]
      exact ⟨q, fetchNext_eq hx none, fetchNext_eq hx q⟩
  obtain ⟨ahead, hfetch, hahead⟩ := hfirst
  unfold listInsert
  rw [hfetch]
  show (listInsertLoop S.heap (some a) (n + (l₁.length + 1)) none S.head ahead >>= _) = _
  rw [listInsertLoop_eq_walk ha _ hs _ hahead, walk_spec hs h₁ h₂]
  show (do
    let h ← setNext S.heap (some a) (ptr l₂)
    _) = _
  rw [setNext_eq ha]
  cases lastOr none l₁ with
  | none => rfl
  | some p => rfl

theorem listInsert_spec (hl : IsList S l) (ha : IsNew S a) : InsertsExactly S l a := by
  obtain ⟨⟨⟨m, next⟩, hcell⟩, hnew⟩ := ha
  obtain ⟨l₁, l₂, rfl, h₁, h₂⟩ := exists_split (fun _ c => listInsertStops c m) l
  have hout := hnew _ hl.chain
  have hsorted := sorted_insert (a := a) hl.sorted
    (fun x hx => not_le.mp fun hle => Bool.false_ne_true ((h₁ x hx).symm.trans ((listInsertStops_iff _ _).mpr hle)))
    fun x hx => (listInsertStops_iff _ _).mp (h₂ x hx)
  have hrun := listInsert_eq hl.chain hcell h₁ h₂
  rcases List.eq_nil_or_concat l₁ with rfl | ⟨l₀, ⟨c, d⟩, rfl⟩
  · refine ⟨[], m, next, l₂, ⟨some a, _⟩, rfl, hcell, returns_of_add _ hrun, ⟨?_, hsorted⟩, ?_⟩
    · have hhead := Segment.ptr_eq hl.chain
      rw [List.nil_append] at hhead
      rw [← hhead]
      exact Segment.insert_front hl.chain hout
    · exact fun b hb _ => Function.update_of_ne hb _ _
  · rw [List.concat_eq_append] at *
    obtain ⟨r, hd⟩ := Segment.of_mem hl.chain (a := c) (b := d) (by simp)
    have hca : c ≠ a := by
      rintro rfl
      exact hout (by simp)
    have hd' : Function.update S.heap a (some ⟨m, ptr l₂⟩) c = some ⟨d, r⟩ := by
      rw [Function.update_of_ne hca]
      exact hd
    refine ⟨l₀ ++ [(c, d)], m, next, l₂, { S with
      heap := Function.update (Function.update S.heap a (some ⟨m, ptr l₂⟩)) c (some ⟨d, some a⟩) }, rfl, hcell,
      returns_of_add ((l₀ ++ [(c, d)]).length + 1) fun n => ?_, ⟨Segment.insert_after hl.chain hout, hsorted⟩, ?_⟩
    · rw [hrun, lastOr_append_singleton, Option.elim_some, setNext_eq hd']
      rfl
    · intro b hb hmem
      have hbc : b ≠ c := by
        rintro rfl
        exact hmem (by simp)
      show Function.update (Function.update S.heap a _) c _ b = _
      rw [Function.update_of_ne hbc, Function.update_of_ne hb]

/-! ## Deletion -/

omit [LinearOrder K] in
/-- The walk of `ListDelete` to a member of the list. -/
theorem walk_member (hs : Chain S.heap S.head (l₁ ++ (a, m) :: l₂)) (n : ℕ) :
    walk S.heap (fun b _ => decide (some b = some a)) (n + (l₁.length + 1)) none S.head =
      .ok (lastOr none l₁, some a) := by
  refine walk_spec hs ?_ ?_ none n
  · intro x hx
    have hne : x.1 ≠ a := by
      rintro rfl
      exact addrs_disjoint hs (List.mem_map_of_mem hx) List.mem_cons_self
    simpa using hne
  · intro x hx
    obtain rfl := Option.some.inj hx
    simp

theorem listDelete_after {c : Addr} {d : ListMember K} (hl : IsList S ((l₁ ++ [(c, d)]) ++ (a, m) :: l₂)) :
    DeletesExactly S (l₁ ++ [(c, d)]) a m l₂ := by
  obtain ⟨r, hd⟩ := Segment.of_mem hl.chain (a := c) (b := d) (by simp)
  obtain ⟨r', -, hr, next, ha, h₂⟩ := segment_append.mp hl.chain
  have hnext := Segment.ptr_eq h₂
  subst hnext
  refine ⟨{ S with heap := Function.update (Function.update S.heap c (some ⟨d, ptr l₂⟩)) a none },
    returns_of_add ((l₁ ++ [(c, d)]).length + 1) fun n => ?_, ⟨Segment.remove_after hl.chain, ?_⟩,
    Function.update_self _ _ _, ?_⟩
  · unfold listDelete
    rw [walk_member hl.chain, lastOr_append_singleton]
    show (do
      let m ← load S.heap (some a)
      let h ← setNext S.heap (some c) m.next
      .ok ({ S with heap := freeListMember h (some a) }, true)) = _
    rw [load_eq ha]
    show (do
      let h ← setNext S.heap (some c) (ptr l₂)
      .ok ({ S with heap := freeListMember h (some a) }, true)) = _
    rw [setNext_eq hd]
    rfl
  · exact hl.sorted.sublist ((List.sublist_cons_self _ _).append_left _)
  · intro b hb hmem
    have hbc : b ≠ c := by
      rintro rfl
      exact hmem (by simp)
    show Function.update (Function.update S.heap c _) a none b = _
    rw [Function.update_of_ne hb, Function.update_of_ne hbc]

omit [LinearOrder K] in
/-- At the head the whole list is given up, and only the head is freed. -/
theorem listDelete_head (hs : Chain S.heap S.head ((a, m) :: l)) :
    Returns (fun fuel => listDelete fuel (some a) S) (⟨none, freeListMember S.heap (some a)⟩, true) := by
  refine returns_of_add 1 fun n => ?_
  rw [← List.nil_append ((a, m) :: l)] at hs
  have hwalk : walk S.heap (fun b _ => decide (some b = some a)) (n + 1) none S.head = .ok (none, some a) :=
    walk_member hs n
  unfold listDelete
  rw [hwalk]
  rfl

theorem isList_nil (h : Heap (ListMember K)) : IsList ⟨none, h⟩ [] := ⟨rfl, List.Pairwise.nil⟩

theorem listDelete_only (hl : IsList S [(a, m)]) : DeletesExactly S [] a m [] :=
  ⟨_, listDelete_head hl.chain, isList_nil _, Function.update_self _ _ _, fun _ hb _ => Function.update_of_ne hb _ _⟩

omit [LinearOrder K] in
theorem listDelete_absent (hs : Chain S.heap S.head l) (ha : ∀ a ∈ addrs l, member ≠ some a) :
    Returns (fun fuel => listDelete fuel member S) (S, false) := by
  refine returns_of_add (l.length + 1) fun n => ?_
  have hwalk : walk S.heap (fun b _ => decide (some b = member)) (n + (l.length + 1)) none S.head =
      .ok (lastOr none l, none) := by
    have hs' : Chain S.heap S.head (l ++ []) := by rwa [List.append_nil]
    refine walk_spec hs' ?_ (by simp) none n
    intro x hx
    have hne := ha x.1 (List.mem_map_of_mem hx)
    simpa using hne.symm
  unfold listDelete
  rw [hwalk]
  rfl

/-! ## Runs -/

/-- The list is still one after a deletion of anything. -/
theorem listDelete_isList {S' : ListState K} {deleted : Bool} (hl : IsList S l)
    (hret : Returns (fun fuel => listDelete fuel member S) (S', deleted)) : ∃ l', IsList S' l' := by
  by_cases hmem : ∃ a ∈ addrs l, member = some a
  · obtain ⟨a, ha, rfl⟩ := hmem
    obtain ⟨⟨a, m⟩, hx, rfl⟩ := List.mem_map.mp ha
    obtain ⟨l₁, l₂, rfl⟩ := List.append_of_mem hx
    rcases List.eq_nil_or_concat l₁ with rfl | ⟨l₀, ⟨c, d⟩, rfl⟩
    · obtain ⟨rfl, -⟩ := Prod.mk.inj (hret.unique (listDelete_head hl.chain))
      exact ⟨[], isList_nil _⟩
    · rw [List.concat_eq_append] at hl
      obtain ⟨S₁, hret₁, hl₁, -⟩ := listDelete_after hl
      obtain ⟨rfl, -⟩ := Prod.mk.inj (hret.unique hret₁)
      exact ⟨_, hl₁⟩
  · have habsent : ∀ a ∈ addrs l, member ≠ some a := fun a ha heq => hmem ⟨a, ha, heq⟩
    obtain ⟨rfl, -⟩ := Prod.mk.inj (hret.unique (listDelete_absent hl.chain habsent))
    exact ⟨l, hl⟩

theorem ReachableList.exists_isList (h : ReachableList S) : ∃ l, IsList S l := by
  induction h with
  | empty h => exact ⟨[], isList_nil h⟩
  | @new S a _ ha value normalComponent triangleId ih =>
    obtain ⟨l, hl⟩ := ih
    refine ⟨l, Segment.update hl.chain ?_ _, hl.sorted⟩
    intro hmem
    obtain ⟨⟨b, m⟩, hx, rfl⟩ := List.mem_map.mp hmem
    obtain ⟨next, hb⟩ := Segment.of_mem hl.chain hx
    exact absurd (hb.symm.trans ha) (by simp)
  | @insert S S' a _ ha hret ih =>
    obtain ⟨l, hl⟩ := ih
    obtain ⟨l₁, m, next, l₂, S₁, -, -, hret₁, hl₁, -⟩ := listInsert_spec hl ha
    obtain rfl := hret.unique hret₁
    exact ⟨_, hl₁⟩
  | delete _ hret ih =>
    obtain ⟨l, hl⟩ := ih
    exact listDelete_isList hl hret

/-- In every state of a run the calls are exact. -/
theorem reachableList_exact (S : ListState K) (h : ReachableList S) : ∃ l, IsExact S l := by
  obtain ⟨l, hl⟩ := h.exists_isList
  refine ⟨l, hl, fun a ha => listInsert_spec hl ha, ?_, fun member ha => listDelete_absent hl.chain ha⟩
  rintro l₁ a m l₂ rfl honly
  rcases List.eq_nil_or_concat l₁ with rfl | ⟨l₀, ⟨c, d⟩, rfl⟩
  · obtain rfl := honly rfl
    exact listDelete_only hl
  · rw [List.concat_eq_append] at hl ⊢
    exact listDelete_after hl

/-! ## Searches -/

omit [LinearOrder K] in
/-- A search finds the first member that passes the test. -/
theorem listFind_spec (hs : Chain S.heap S.head l) (test : ListMember K → Bool) :
    Returns (fun fuel => listFind test fuel S) (ptr (l.dropWhile fun x => !test x.2)) := by
  obtain ⟨l₁, l₂, rfl, h₁, h₂⟩ := exists_split (fun _ m => test m) l
  have hdrop : (l₁ ++ l₂).dropWhile (fun x => !test x.2) = l₂ := by
    rw [List.dropWhile_append_of_pos fun x hx => by rw [h₁ x hx]; rfl]
    cases l₂ with
    | nil => rfl
    | cons x l₂ => rw [List.dropWhile_cons_of_neg (by rw [h₂ x rfl]; decide)]
  rw [hdrop]
  refine returns_of_add (l₁.length + 1) fun n => ?_
  unfold listFind
  rw [walk_spec hs h₁ h₂]
  rfl

end

/-! ## Two members -/

/-- A member of value 5 at address 1. -/
def oneMember : ListState ℤ := ⟨some 1, newListMember (fun _ => none) 1 5 0 0⟩

/-- A member of value 3 at address `a` in front of it. -/
def twoMembers (a : Addr) : ListState ℤ :=
  ⟨some a, Function.update (newListMember oneMember.heap a 3 0 0) a (some ⟨⟨3, 0, 0⟩, some 1⟩)⟩

theorem reachable_oneMember : ReachableList oneMember := by
  have hnew : ReachableList (⟨none, newListMember (fun _ => none) 1 5 0 0⟩ : ListState ℤ) :=
    (ReachableList.empty fun _ => none).new rfl 5 0 0
  refine hnew.insert (a := 1) ⟨⟨_, rfl⟩, ?_⟩ (returns_of_add 1 fun n => ?_)
  · intro l hl
    rw [← Segment.unique (l := []) rfl hl]
    exact List.not_mem_nil
  · have hrun : listInsert (n + 1) (some 1) (⟨none, newListMember (fun _ => none) 1 5 0 0⟩ : ListState ℤ) =
        .ok ⟨some 1, Function.update (newListMember (fun _ => none) 1 5 0 0) 1 (some ⟨⟨5, 0, 0⟩, none⟩)⟩ := rfl
    rw [hrun]
    congr 2
    exact Function.update_eq_self _ _

theorem reachable_twoMembers {a : Addr} (ha : a ≠ 1) : ReachableList (twoMembers a) := by
  have hcell : oneMember.heap a = none := Function.update_of_ne ha _ fun _ => none
  have hnew := reachable_oneMember.new hcell 3 0 0
  have hone : Chain oneMember.heap oneMember.head [(1, ⟨5, 0, 0⟩)] := ⟨rfl, none, rfl, rfl⟩
  have hlist : Chain (newListMember oneMember.heap a 3 0 0) oneMember.head [(1, ⟨5, 0, 0⟩)] :=
    hone.update (by simpa using ha) _
  have hself : newListMember oneMember.heap a 3 0 0 a = some ⟨⟨3, 0, 0⟩, none⟩ := Function.update_self _ _ _
  refine hnew.insert (a := a) ⟨⟨_, hself⟩, ?_⟩ (returns_of_add 1 fun n => ?_)
  · intro l hl
    rw [← Segment.unique hlist hl]
    simpa using ha
  · rw [← List.nil_append [_]] at hlist
    exact listInsert_eq (S := ⟨_, newListMember oneMember.heap a 3 0 0⟩) hlist hself (by simp)
      (by simp [listInsertStops]) n

theorem twoMembers_exact : ∃ l, IsExact (twoMembers 0) l :=
  reachableList_exact _ (reachable_twoMembers (by decide))

/-- The same cell stands behind two different ones. -/
theorem not_isBackLinked : ¬ ∃ previous : ChainCell (ListMember ℤ) → Option Addr, ∀ S : ListState ℤ, ReachableList S →
    ∃ l, IsList S l ∧ IsBackLinked previous S l ∧ (∀ a, IsNew S a → InsertsExactly S l a) ∧
      ∀ l₁ a m l₂, l = l₁ ++ (a, m) :: l₂ → DeletesExactly S l₁ a m l₂ := by
  rintro ⟨previous, h⟩
  have hback : ∀ a : Addr, a ≠ 1 → previous ⟨⟨5, 0, 0⟩, none⟩ = some a := by
    intro a ha
    obtain ⟨l, hl, hlinked, -⟩ := h _ (reachable_twoMembers ha)
    have hlast : (twoMembers a).heap 1 = some ⟨⟨5, 0, 0⟩, none⟩ := by
      show Function.update (Function.update oneMember.heap a _) a _ 1 = _
      rw [Function.update_of_ne ha.symm, Function.update_of_ne ha.symm]
      rfl
    have hlist : Chain (twoMembers a).heap (twoMembers a).head [(a, ⟨3, 0, 0⟩), (1, ⟨5, 0, 0⟩)] :=
      ⟨rfl, some 1, Function.update_self _ _ _, rfl, none, hlast, rfl⟩
    rw [← Segment.unique hlist hl.chain] at hlinked
    obtain ⟨c, hc, hprevious⟩ := (List.isChain_cons_cons.mp hlinked).1
    obtain rfl := Option.some.inj (hlast.symm.trans hc)
    exact hprevious
  exact absurd ((hback 0 (by decide)).symm.trans (hback 2 (by decide))) (by decide)

end ParFlow.Geom
