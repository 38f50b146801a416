import Mathlib.Data.Finset.Card
import ParFlow.Hbt.HbtInsert
import ParFlow.Hbt.HbtDefs

/-! Trees built by `HBT_insert` alone are dictionaries: the first object inserted under a
key is the one `HBT_lookup` returns. -/

namespace ParFlow.Hbt

open FuelRun HeapTree HTree

variable {α : Type} {κ : Type} [LinearOrder κ] {compare : α → α → ℤ} {key : α → κ} {x : α}

/-! ## Lookup -/

section Lookup

variable {h : Heap (Label α)} {t : ElementTree α} {fuel : ℕ}

theorem find?_append_of_ne {l m : List α} (hm : ∀ o ∈ m, key o ≠ key x) :
    (l ++ m).find? (fun o => key o = key x) = l.find? fun o => key o = key x := by
  have hn : m.find? (fun o => key o = key x) = none := by
    rw [List.find?_eq_none]
    simpa using hm
  rw [List.find?_append, hn, Option.or_none]

theorem lookupLoop_spec (hcmp : Compares compare key) (hr : Rep h t)
    (hs : (inOrder t).Pairwise fun a b => key a < key b) (hfuel : t.height < fuel) :
    lookupLoop compare h x fuel t.ptr = .ok ((inOrder t).find? fun o => key o = key x) := by
  induction t generalizing fuel with
  | nil =>
    obtain ⟨fuel, rfl⟩ : ∃ n, fuel = n + 1 := ⟨fuel - 1, by omega⟩
    rfl
  | node a l v r ihl ihr =>
    obtain ⟨fuel, rfl⟩ : ∃ n, fuel = n + 1 := ⟨fuel - 1, by omega⟩
    obtain ⟨ha, hrl, hrr⟩ := hr
    obtain ⟨hlt, heq⟩ := hcmp x v.obj
    simp only [height] at hfuel
    simp only [inOrder, elems, List.pairwise_append, List.pairwise_cons] at hs
    obtain ⟨hsl, ⟨hvr, hsr⟩, hlr⟩ := hs
    simp only [ptr_node, lookupLoop, load_eq ha, bind, Except.bind]
    have hnode : inOrder (.node a l v r) = inOrder l ++ v.obj :: inOrder r := rfl
    split_ifs with h1 h2
    · have hx := hlt.mp h1
      rw [ihl hrl hsl (by omega), hnode, find?_append_of_ne]
      intro o ho
      rcases List.mem_cons.mp ho with rfl | ho
      · exact hx.ne'
      · exact (hx.trans (hvr o ho)).ne'
    · have hx : key v.obj < key x :=
        lt_of_le_of_ne (not_lt.mp (mt hlt.mpr h1)) fun he => (by omega : compare x v.obj ≠ 0) (heq.mpr he.symm)
      rw [ihr hrr hsr (by omega), hnode, List.find?_append, List.find?_cons]
      have hl : (inOrder l).find? (fun o => key o = key x) = none := by
        rw [List.find?_eq_none]
        intro o ho
        simpa using ((hlr o ho v.obj List.mem_cons_self).trans hx).ne
      simp [hl, hx.ne]
    · have hx : key x = key v.obj := heq.mp (by omega)
      have hl : (inOrder l).find? (fun o => key o = key x) = none := by
        rw [List.find?_eq_none]
        intro o ho
        simpa using (hx ▸ hlr o ho v.obj List.mem_cons_self).ne
      rw [hnode, List.find?_append, hl, List.find?_cons]
      simp [hx]

theorem hbtLookup_returns (hcmp : Compares compare key) {T : HBT α} (hv : Valid key T t) (x : α) :
    Returns (fun fuel => hbtLookup compare fuel x T) ((inOrder t).find? fun o => key o = key x) := by
  refine ⟨t.height + 1, fun fuel hf => ?_⟩
  simp only [hbtLookup, hv.stores.root]
  exact lookupLoop_spec hcmp hv.stores.rep hv.sorted hf

end Lookup

/-! ## Sequences of insertions -/

/-- `T` is reached from a new tree by insertions, of which those of `objs` did not run out of
memory; an allocation returns memory that is not in use. -/
inductive Inserted (compare : α → α → ℤ) : List α → HBT α → Prop where
  | new (mallocFlag : Bool) : Inserted compare [] (hbtNew mallocFlag)
  | insert {objs : List α} {T T' : HBT α} {obj : α} {cell : Option Addr} {ret : InsertRet}
      (h : Inserted compare objs T) (hcell : ∀ a, cell = some a → T.heap a = none)
      (hret : Returns (fun fuel => hbtInsert compare fuel cell obj T) (T', ret)) :
      Inserted compare (if ret = .memoryError then objs else objs ++ [obj]) T'

section Insertions

variable {T : HBT α} {t : ElementTree α} {objs : List α}

theorem valid_new (mallocFlag : Bool) : Valid key (hbtNew mallocFlag) (.nil : ElementTree α) :=
  ⟨⟨rfl, trivial, List.nodup_nil⟩, List.Pairwise.nil, trivial, rfl, rfl⟩

/-- The tree answers every search as the list of inserted objects does. -/
def Answers (key : α → κ) (t : ElementTree α) (objs : List α) : Prop :=
  ∀ x, (inOrder t).find? (fun o => key o = key x) = objs.find? fun o => key o = key x

theorem Answers.exists_iff (h : Answers key t objs) (x : α) :
    (∃ o ∈ inOrder t, key o = key x) ↔ ∃ o ∈ objs, key o = key x := by
  have := congrArg Option.isSome (h x)
  rw [Bool.eq_iff_iff, List.find?_isSome, List.find?_isSome] at this
  simpa using this

theorem Answers.found (h : Answers key t objs) (hx : ∃ o ∈ inOrder t, key o = key x) :
    Answers key t (objs ++ [x]) := by
  intro y
  rw [h y, List.find?_append, List.find?_singleton]
  by_cases hy : key x = key y
  · obtain ⟨o, ho, hk⟩ := (h.exists_iff x).mp hx
    have hs : (objs.find? fun o => key o = key y).isSome := by
      rw [List.find?_isSome]
      exact ⟨o, ho, by simp [hk, hy]⟩
    rw [Option.or_of_isSome hs]
  · simp [hy]

theorem Answers.inserted {t' : ElementTree α} {A B : List α} (h : Answers key t objs)
    (hx : ∀ o ∈ inOrder t, key o ≠ key x) (ht : inOrder t = A ++ B) (ht' : inOrder t' = A ++ x :: B) :
    Answers key t' (objs ++ [x]) := by
  intro y
  have hy := h y
  rw [ht, List.find?_append] at hy
  rw [ht', List.find?_append, List.find?_append, ← hy, List.find?_cons, List.find?_singleton]
  by_cases hxy : key x = key y
  · have hnone : ∀ l : List α, (∀ o ∈ l, o ∈ inOrder t) → l.find? (fun o => key o = key y) = none := by
      intro l hl
      rw [List.find?_eq_none]
      intro o ho
      simpa [← hxy] using hx o (hl o ho)
    rw [hnone A (by rw [ht]; simp +contextual), hnone B (by rw [ht]; simp +contextual)]
    simp [hxy]
  · simp [hxy]

/-- In a search tree, one element for each key that occurs. -/
theorem Answers.card (h : Answers key t objs) (hs : (inOrder t).Pairwise fun a b => key a < key b) :
    (inOrder t).length = (objs.map key).toFinset.card := by
  have hnd : ((inOrder t).map key).Nodup := List.pairwise_map.mpr (hs.imp fun h => h.ne)
  rw [← List.length_map (f := key), ← List.toFinset_card_of_nodup hnd]
  congr 1
  ext k
  simp only [List.mem_toFinset, List.mem_map]
  constructor
  · rintro ⟨o, ho, rfl⟩
    exact (h.exists_iff o).mp ⟨o, ho, rfl⟩
  · rintro ⟨o, ho, rfl⟩
    exact (h.exists_iff o).mpr ⟨o, ho, rfl⟩

theorem Inserted.exists_valid (hcmp : Compares compare key) (h : Inserted compare objs T) :
    ∃ t, Valid key T t ∧ Answers key t objs := by
  induction h with
  | new mallocFlag => exact ⟨.nil, valid_new mallocFlag, fun _ => rfl⟩
  | @insert objs T T' obj cell ret _ hcell hret ih =>
    obtain ⟨t, hv, ha⟩ := ih
    obtain ⟨T₁, ret₁, hret₁, hspec⟩ := hbtInsert_spec (x := obj) hcmp hv hcell
    obtain ⟨rfl, rfl⟩ := Prod.mk.inj (hret.unique hret₁)
    rcases hspec with ⟨hx, rfl, rfl⟩ | ⟨hx, ⟨-, rfl, rfl⟩ | ⟨rfl, t', A, B, hv', ht, ht'⟩⟩
    · exact ⟨t, hv, ha.found hx⟩
    · exact ⟨t, hv, ha⟩
    · exact ⟨t', hv', ha.inserted hx ht ht'⟩

/-- After any sequence of insertions the tree is a height balanced search tree whose header is true,
it counts the distinct keys, a lookup returns the first object inserted under its key, and a
further insertion returns and leaves the tree alone when the key is there. -/
theorem inserted_dictionary (compare : α → α → ℤ) (key : α → κ) (hcmp : Compares compare key)
    (objs : List α) (T : HBT α) (h : Inserted compare objs T) :
    (∃ t, Valid key T t) ∧ T.num = (objs.map key).toFinset.card ∧
      (∀ x, Returns (fun fuel => hbtLookup compare fuel x T) (objs.find? fun o => key o = key x)) ∧
      ∀ x cell, (∀ a, cell = some a → T.heap a = none) →
        ∃ T' ret, Returns (fun fuel => hbtInsert compare fuel cell x T) (T', ret) ∧
          (ret = .found ↔ ∃ o ∈ objs, key o = key x) ∧ (ret = .found → T' = T) ∧
          (ret = .memoryError → cell = none ∧ T' = T) := by
  obtain ⟨t, hv, ha⟩ := h.exists_valid hcmp
  refine ⟨⟨t, hv⟩, hv.num.trans (ha.card hv.sorted), fun x => ha x ▸ hbtLookup_returns hcmp hv x,
    fun x cell hcell => ?_⟩
  obtain ⟨T', ret, hret, hspec⟩ := hbtInsert_spec (x := x) hcmp hv hcell
  refine ⟨T', ret, hret, ?_⟩
  rw [← ha.exists_iff]
  rcases hspec with ⟨hx, rfl, rfl⟩ | ⟨hx, ⟨rfl, rfl, rfl⟩ | ⟨rfl, -⟩⟩
  · exact ⟨iff_of_true rfl hx, fun _ => rfl, nofun⟩
  · exact ⟨iff_of_false nofun fun ⟨o, ho, hk⟩ => hx o ho hk, nofun, fun _ => ⟨rfl, rfl⟩⟩
  · exact ⟨iff_of_false nofun fun ⟨o, ho, hk⟩ => hx o ho hk, nofun, nofun⟩

end Insertions

/-! ## Trees of integers -/

def intCompare (a b : ℤ) : ℤ := a - b

theorem intCompare_compares : Compares intCompare id :=
  fun a b => ⟨by simp [intCompare], by simp [intCompare, sub_eq_zero]⟩

/-- Insert a list of integers into a new tree, at the addresses from `0` on. -/
def buildInts (objs : List ℤ) : HBT ℤ :=
  objs.zipIdx.foldl (fun T oi => match hbtInsert intCompare 8 (some oi.2) oi.1 T with
    | .ok (T, _) => T
    | .error _ => T) (hbtNew false)

theorem Inserted.insertInt {objs : List ℤ} {T T' : HBT ℤ} (a : Addr) (x : ℤ) (ret : InsertRet)
    (h : Inserted intCompare objs T) (ha : T.heap a = none) (hm : ret ≠ .memoryError)
    (hret : ∀ n, hbtInsert intCompare (n + 8) (some a) x T = .ok (T', ret)) :
    Inserted intCompare (objs ++ [x]) T' := by
  have hcell : ∀ b, some a = some b → T.heap b = none := by
    rintro b ⟨⟩
    exact ha
  simpa only [if_neg hm] using h.insert hcell (returns_of_add 8 hret)

theorem inserted_two_one : Inserted intCompare [2, 1, 2] (buildInts [2, 1, 2]) :=
  (((Inserted.new false).insertInt 0 2 .inserted rfl nofun fun _ => rfl).insertInt 1 1 .inserted rfl nofun
    fun _ => rfl).insertInt 2 2 .found rfl nofun fun _ => rfl

/-- The tree of 2 and 1, with 2 inserted twice. -/
theorem two_one_dictionary : (buildInts [2, 1, 2]).num = 2 ∧
    Returns (fun fuel => hbtLookup intCompare fuel 1 (buildInts [2, 1, 2])) (some 1) := by
  obtain ⟨-, hnum, hlook, -⟩ := inserted_dictionary intCompare id intCompare_compares _ _ inserted_two_one
  exact ⟨hnum, hlook 1⟩

end ParFlow.Hbt

/-! `HBT_replace` under a key that is not there. -/

namespace ParFlow.Hbt

open FuelRun HeapTree HTree

variable {α : Type} {κ : Type} [LinearOrder κ] {compare : α → α → ℤ} {key : α → κ} {x : α}

section Absent

variable {h : Heap (Label α)} {t : ElementTree α}

/-- Without an equal key the search goes on to the end of the tree. -/
theorem replaceLoop_absent (hr : Rep h t) (hx : ∀ o ∈ inOrder t, compare x o ≠ 0) (found : Bool) {fuel : ℕ}
    (hfuel : t.height < fuel) : replaceLoop compare h x fuel t.ptr found = .ok (none, found) := by
  induction t generalizing fuel with
  | nil =>
    obtain ⟨n, rfl⟩ : ∃ n, fuel = n + 1 := ⟨fuel - 1, by omega⟩
    rfl
  | node a l v r ihl ihr =>
    obtain ⟨n, rfl⟩ : ∃ n, fuel = n + 1 := ⟨fuel - 1, by omega⟩
    obtain ⟨ha, hl, hr⟩ := hr
    rw [height] at hfuel
    have hne : compare x v.obj ≠ 0 := hx v.obj (List.mem_append_right _ List.mem_cons_self)
    have hleft : replaceLoop compare h x n l.ptr found = .ok (none, found) :=
      ihl hl (fun o ho => hx o (List.mem_append_left _ ho)) (by omega)
    have hright : replaceLoop compare h x n r.ptr found = .ok (none, found) :=
      ihr hr (fun o ho => hx o (List.mem_append_right _ (List.mem_cons_of_mem _ ho))) (by omega)
    simp only [ptr_node, replaceLoop, load_eq ha, bind, Except.bind]
    split_ifs with hlt hgt
    · exact hleft
    · exact hright
    · omega

/-- At an equal key the search stays where it is. -/
theorem replaceLoop_stored (hr : Rep h t) (hs : (inOrder t).Pairwise fun a b => key a < key b)
    (hcmp : Compares compare key) (hx : ∃ o ∈ inOrder t, key o = key x) (found : Bool) (fuel : ℕ) :
    replaceLoop compare h x fuel t.ptr found = .error .fuel := by
  induction fuel generalizing t found with
  | zero => cases t <;> rfl
  | succ fuel ih =>
    cases t with
    | nil =>
      obtain ⟨o, ho, -⟩ := hx
      exact absurd ho List.not_mem_nil
    | node a l v r =>
      obtain ⟨hsl, hsr, hlr⟩ := List.pairwise_append.mp hs
      obtain ⟨hvr, hsr⟩ := List.pairwise_cons.mp hsr
      obtain ⟨hlt, heq⟩ := hcmp x v.obj
      have hstay := ih hr hs hx true
      obtain ⟨ha, hl, hr⟩ := hr
      obtain ⟨o, ho, hk⟩ := hx
      simp only [ptr_node, replaceLoop, load_eq ha, bind, Except.bind]
      split_ifs with h1 h2
      · apply ih hl hsl ⟨o, ?_, hk⟩
        have hx := hlt.mp h1
        rcases List.mem_append.mp ho with ho | ho
        · exact ho
        · rcases List.mem_cons.mp ho with rfl | ho
          · exact absurd hk hx.ne'
          · exact absurd hk (hx.trans (hvr o ho)).ne'
      · apply ih hr hsr ⟨o, ?_, hk⟩
        have hx : key v.obj < key x :=
          lt_of_le_of_ne (not_lt.mp (mt hlt.mpr h1)) fun he => (by omega : compare x v.obj ≠ 0) (heq.mpr he.symm)
        rcases List.mem_append.mp ho with ho | ho
        · exact absurd hk ((hlr o ho v.obj List.mem_cons_self).trans hx).ne
        · rcases List.mem_cons.mp ho with rfl | ho
          · exact absurd hk hx.ne
          · exact ho
      · exact hstay

end Absent

/-- For a stored key the call does not end. -/
theorem hbtReplace_stored (hcmp : Compares compare key) {T : HBT α} {t : ElementTree α} (hv : Valid key T t)
    (hx : ∃ o ∈ inOrder t, key o = key x) (fuel : ℕ) : hbtReplace compare fuel x T = .error .fuel := by
  have hsearch := replaceLoop_stored hv.stores.rep hv.sorted hcmp hx false fuel
  rw [← hv.stores.root] at hsearch
  simp only [hbtReplace, hsearch, bind, Except.bind]

/-- What replacing promises: the object under the key is replaced, or else the object is inserted. -/
def ReplacesOrInserts (compare : α → α → ℤ) (key : α → κ) (cell : Option Addr) (T : HBT α) (t : ElementTree α) (x : α) : Prop :=
  ∃ T' temp, Returns (fun fuel => hbtReplace compare fuel x T) (T', temp) ∧
    ((∃ o ∈ inOrder t, key o = key x) → ∃ t', Valid key T' t' ∧ t'.addrs = t.addrs ∧
      inOrder t' = (inOrder t).map fun o => if key o = key x then x else o) ∧
    ((∀ o ∈ inOrder t, key o ≠ key x) → Returns (fun fuel => hbtInsert compare fuel cell x T) (T', .inserted))

end ParFlow.Hbt
