import Mathlib

/-! Counting loops over integer intervals and boxes, as the list of values of
the loop variables in the order the bodies run. -/

namespace IntLoop

/-- `for (i = lo; i < hi; i++)`. -/
def upto (lo hi : ℤ) : List ℤ := (List.range (hi - lo).toNat).map fun n : ℕ => lo + (n : ℤ)

@[simp] theorem mem_upto {lo hi i : ℤ} : i ∈ upto lo hi ↔ lo ≤ i ∧ i < hi := by
  simp only [upto, List.mem_map, List.mem_range]
  constructor
  · rintro ⟨n, hn, rfl⟩
    omega
  · rintro ⟨h1, h2⟩
    exact ⟨(i - lo).toNat, by omega, by omega⟩

theorem upto_nodup (lo hi : ℤ) : (upto lo hi).Nodup := by
  refine List.Nodup.map (fun a b h => ?_) List.nodup_range
  simpa using h

theorem length_upto (lo hi : ℤ) : (upto lo hi).length = (hi - lo).toNat := by
  simp [upto]

theorem upto_eq_nil {lo hi : ℤ} (h : hi ≤ lo) : upto lo hi = [] :=
  List.eq_nil_of_length_eq_zero (by rw [length_upto]; omega)

theorem upto_pairwise_lt (lo hi : ℤ) : (upto lo hi).Pairwise (· < ·) := by
  refine List.pairwise_map.mpr (List.pairwise_lt_range.imp fun {a b} h => ?_)
  omega

theorem upto_zero_eq (n : ℤ) : upto 0 n = (List.range n.toNat).map fun k : ℕ => (k : ℤ) := by
  simp [upto]

theorem upto_append {a b c : ℤ} (hab : a ≤ b) (hbc : b ≤ c) : upto a b ++ upto b c = upto a c := by
  obtain ⟨m, rfl⟩ := Int.le.dest hab
  obtain ⟨k, rfl⟩ := Int.le.dest hbc
  simp only [upto, add_sub_cancel_left, Int.toNat_natCast]
  rw [show (a + (m : ℤ) + (k : ℤ) - a).toNat = m + k by omega, List.range_add, List.map_append, List.map_map]
  congr 1
  apply List.map_congr_left
  intro i _
  simp only [Function.comp_apply, Nat.cast_add]
  ring

theorem upto_cons {lo hi : ℤ} (h : lo < hi) : upto lo hi = lo :: upto (lo + 1) hi := by
  rw [← upto_append (Int.le_add_one le_rfl) h]
  simp [upto]

theorem upto_concat {lo hi : ℤ} (h : lo ≤ hi) : upto lo (hi + 1) = upto lo hi ++ [hi] := by
  rw [← upto_append h (Int.le_add_one le_rfl), upto_cons (Int.lt_add_one_iff.mpr le_rfl), upto_eq_nil le_rfl]

theorem upto_add (lo hi k : ℤ) : upto (lo + k) (hi + k) = (upto lo hi).map (· + k) := by
  simp only [upto, List.map_map, add_sub_add_right_eq_sub]
  refine List.map_congr_left fun n _ => ?_
  simp only [Function.comp_apply]
  omega

/-- `for (i = lo; i < hi; i += s)` with a positive step. -/
def uptoBy (lo hi s : ℤ) : List ℤ := (List.range ((hi - lo + (s - 1)) / s).toNat).map fun n : ℕ => lo + s * (n : ℤ)

theorem mem_uptoBy {lo hi s i : ℤ} (hs : 0 < s) : i ∈ uptoBy lo hi s ↔ lo ≤ i ∧ i < hi ∧ s ∣ i - lo := by
  have hrounds : ∀ n : ℕ, n < ((hi - lo + (s - 1)) / s).toNat ↔ lo + s * n < hi := by
    intro n
    rw [Int.lt_toNat, ← Int.add_one_le_iff, Int.le_ediv_iff_mul_le hs, add_mul, one_mul, mul_comm (n : ℤ) s]
    omega
  unfold uptoBy
  rw [List.mem_map]
  constructor
  · rintro ⟨n, hn, rfl⟩
    have hn := (hrounds n).mp (List.mem_range.mp hn)
    have hnonneg : 0 ≤ s * (n : ℤ) := by positivity
    exact ⟨by omega, hn, n, by ring⟩
  · rintro ⟨hlo, hhi, q, hq⟩
    have hq0 : 0 ≤ q := by
      by_contra hneg
      have := mul_neg_of_pos_of_neg hs (not_le.mp hneg)
      omega
    have hcast : ((q.toNat : ℕ) : ℤ) = q := Int.toNat_of_nonneg hq0
    refine ⟨q.toNat, List.mem_range.mpr ((hrounds q.toNat).mpr ?_), ?_⟩
    · rw [hcast]
      omega
    · rw [hcast]
      omega

/-- In a list in order, what precedes the first hit is no hit. -/
theorem not_of_find?_eq_some {α : Type*} {R : α → α → Prop} {l : List α} {p : α → Bool} {m j : α}
    (hl : l.Pairwise R) (hR : ∀ a b, R a b → ¬ R b a) (hm : l.find? p = some m) (hj : j ∈ l) (hjm : R j m) :
    ¬ p j := by
  obtain ⟨-, as, bs, rfl, has⟩ := List.find?_eq_some_iff_append.mp hm
  rw [List.pairwise_append, List.pairwise_cons] at hl
  rw [List.mem_append, List.mem_cons] at hj
  rcases hj with h | rfl | h
  · simpa using has j h
  · exact absurd hjm (hR j j hjm)
  · exact absurd (hl.2.1.1 j h) (hR j m hjm)

/-- A search upwards stops at the first hit. -/
theorem find?_upto {p : ℤ → Bool} {lo hi i : ℤ} (hi' : lo ≤ i ∧ i < hi) (hp : p i) :
    ∃ m, (upto lo hi).find? p = some m ∧ p m ∧ lo ≤ m ∧ m ≤ i ∧ ∀ j, lo ≤ j → j < m → ¬ p j := by
  obtain ⟨m, hm⟩ := Option.isSome_iff_exists.mp (List.find?_isSome.mpr ⟨i, mem_upto.mpr hi', hp⟩)
  have hmem := mem_upto.mp (List.mem_of_find?_eq_some hm)
  have hbefore : ∀ j, lo ≤ j → j < m → ¬ p j := fun j hj hjm =>
    not_of_find?_eq_some (upto_pairwise_lt lo hi) (fun _ _ => lt_asymm) hm
      (mem_upto.mpr ⟨hj, hjm.trans hmem.2⟩) hjm
  refine ⟨m, hm, List.find?_some hm, hmem.1, ?_, hbefore⟩
  by_contra hlt
  exact hbefore i hi'.1 (by omega) hp

/-- A search downwards stops at the last hit. -/
theorem find?_upto_reverse {p : ℤ → Bool} {lo hi i : ℤ} (hi' : lo ≤ i ∧ i < hi) (hp : p i) :
    ∃ m, (upto lo hi).reverse.find? p = some m ∧ p m ∧ i ≤ m ∧ m < hi ∧ ∀ j, m < j → j < hi → ¬ p j := by
  have hs : ((upto lo hi).reverse.find? p).isSome :=
    List.find?_isSome.mpr ⟨i, List.mem_reverse.mpr (mem_upto.mpr hi'), hp⟩
  obtain ⟨m, hm⟩ := Option.isSome_iff_exists.mp hs
  have hmem := mem_upto.mp (List.mem_reverse.mp (List.mem_of_find?_eq_some hm))
  have hafter : ∀ j, m < j → j < hi → ¬ p j := fun j hjm hj =>
    not_of_find?_eq_some (List.pairwise_reverse.mpr (upto_pairwise_lt lo hi)) (fun _ _ => lt_asymm) hm
      (List.mem_reverse.mpr (mem_upto.mpr ⟨by omega, hj⟩)) hjm
  refine ⟨m, hm, List.find?_some hm, ?_, hmem.2, hafter⟩
  by_contra hlt
  exact hafter i (by omega) hi'.2 hp

section Rows

variable {ys xs : List ℤ}

/-- Two nested loops, the second list innermost. -/
theorem mem_rows {c : ℤ × ℤ} : c ∈ (ys.flatMap fun j => xs.map fun i => (i, j)) ↔ c.1 ∈ xs ∧ c.2 ∈ ys := by
  rw [List.mem_flatMap]
  constructor
  · rintro ⟨j, hj, hc⟩
    obtain ⟨i, hi, rfl⟩ := List.mem_map.mp hc
    exact ⟨hi, hj⟩
  · rintro ⟨hi, hj⟩
    exact ⟨c.2, hj, List.mem_map.mpr ⟨c.1, hi, rfl⟩⟩

theorem rows_nodup (hy : ys.Nodup) (hx : xs.Nodup) : (ys.flatMap fun j => xs.map fun i => (i, j)).Nodup := by
  refine List.nodup_flatMap.mpr ⟨fun j _ => hx.map fun i i' h => (Prod.mk.inj h).1, ?_⟩
  refine hy.imp fun {j j'} hne => ?_
  rw [Function.onFun, List.disjoint_left]
  intro c hc hc'
  obtain ⟨i, -, rfl⟩ := List.mem_map.mp hc
  obtain ⟨i', -, heq⟩ := List.mem_map.mp hc'
  exact hne (Prod.mk.inj heq).2.symm

end Rows

/-- Three nested loops, the last list innermost and fastest. -/
def nest (zs ys xs : List ℤ) : List (ℤ × ℤ × ℤ) :=
  zs.flatMap fun k => ys.flatMap fun j => xs.map fun i => (i, j, k)

@[simp] theorem mem_nest {zs ys xs : List ℤ} {c : ℤ × ℤ × ℤ} :
    c ∈ nest zs ys xs ↔ c.1 ∈ xs ∧ c.2.1 ∈ ys ∧ c.2.2 ∈ zs := by
  obtain ⟨i, j, k⟩ := c
  simp only [nest, List.mem_flatMap, List.mem_map, Prod.mk.injEq]
  constructor
  · rintro ⟨k', hk, j', hj, i', hi, rfl, rfl, rfl⟩
    exact ⟨hi, hj, hk⟩
  · rintro ⟨hi, hj, hk⟩
    exact ⟨k, hk, j, hj, i, hi, rfl, rfl, rfl⟩

theorem length_nest (zs ys xs : List ℤ) :
    (nest zs ys xs).length = zs.length * (ys.length * xs.length) := by
  simp [nest, List.length_flatMap]

theorem nest_nodup {zs ys xs : List ℤ} (hz : zs.Nodup) (hy : ys.Nodup) (hx : xs.Nodup) :
    (nest zs ys xs).Nodup := by
  refine List.nodup_flatMap.mpr ⟨fun k _ => List.nodup_flatMap.mpr ⟨fun j _ => ?_, ?_⟩, ?_⟩
  · exact hx.map fun a b h => by simpa using h
  · refine hy.imp fun {j j'} hne => ?_
    simp only [Function.onFun, List.disjoint_left, List.mem_map]
    rintro c ⟨i, -, rfl⟩ ⟨i', -, h⟩
    simp only [Prod.mk.injEq] at h
    exact hne h.2.1.symm
  · refine hz.imp fun {k k'} hne => ?_
    simp only [Function.onFun, List.disjoint_left, List.mem_flatMap, List.mem_map]
    rintro c ⟨j, -, i, -, rfl⟩ ⟨j', -, i', -, h⟩
    simp only [Prod.mk.injEq] at h
    exact hne h.2.2.symm

end IntLoop

/-! Nested loops over a grid, x fastest, visit the places of an array of the grid's cells in order. -/

namespace IntLoop

theorem flatMap_rows {m : ℤ} (hm : 0 ≤ m) (n : ℤ) :
    ((upto 0 n).flatMap fun j => upto (j * m) (j * m + m)) = upto 0 (n * m) := by
  rcases le_or_gt n 0 with hn | hn
  · rw [upto_eq_nil hn, upto_eq_nil (mul_nonpos_of_nonpos_of_nonneg hn hm), List.flatMap_nil]
  · induction n, hn.le using Int.leInduction with
    | base => simp [upto]
    | succ n hn' ih =>
      have hrow : n * m + m = (n + 1) * m := by ring
      rw [← upto_append hn' (show n ≤ n + 1 by omega), List.flatMap_append, upto_cons (show n < n + 1 by omega),
        upto_eq_nil le_rfl, List.flatMap_cons, List.flatMap_nil, List.append_nil, hrow]
      rcases hn'.eq_or_lt with rfl | hpos
      · simp [upto]
      · rw [ih hpos, upto_append (mul_nonneg hn' hm) (mul_le_mul_of_nonneg_right (by omega) hm)]

/-- The place of a cell in the array. -/
def cellPlace (nx ny : ℤ) (c : ℤ × ℤ × ℤ) : ℤ := c.2.2 * ny * nx + c.2.1 * nx + c.1

theorem exists_nest_places (nx ny nz : ℤ) :
    ∃ N, (nest (upto 0 nz) (upto 0 ny) (upto 0 nx)).map (cellPlace nx ny) = upto 0 N := by
  rcases lt_or_ge nx 0 with hx | hx
  · exact ⟨0, by simp [nest, upto_eq_nil hx.le, upto_eq_nil le_rfl]⟩
  rcases lt_or_ge ny 0 with hy | hy
  · exact ⟨0, by simp [nest, upto_eq_nil hy.le, upto_eq_nil le_rfl]⟩
  refine ⟨nz * (ny * nx), ?_⟩
  have hrow : ∀ j k : ℤ, (upto 0 nx).map (fun i => cellPlace nx ny (i, j, k)) =
      upto (j * nx + k * (ny * nx)) (j * nx + nx + k * (ny * nx)) := by
    intro j k
    have h := upto_add 0 nx (j * nx + k * (ny * nx))
    rw [show 0 + (j * nx + k * (ny * nx)) = j * nx + k * (ny * nx) by ring,
      show nx + (j * nx + k * (ny * nx)) = j * nx + nx + k * (ny * nx) by ring] at h
    rw [h]
    refine List.map_congr_left fun i _ => ?_
    unfold cellPlace
    ring
  have hplane : ∀ k : ℤ, ((upto 0 ny).flatMap fun j => upto (j * nx + k * (ny * nx)) (j * nx + nx + k * (ny * nx))) =
      upto (k * (ny * nx)) (k * (ny * nx) + ny * nx) := by
    intro k
    have h := upto_add 0 (ny * nx) (k * (ny * nx))
    rw [zero_add, add_comm (ny * nx)] at h
    rw [h, ← flatMap_rows hx ny, List.map_flatMap]
    exact List.flatMap_congr fun j _ => upto_add _ _ _
  rw [← flatMap_rows (mul_nonneg hy hx) nz]
  unfold nest
  rw [List.map_flatMap]
  refine List.flatMap_congr fun k _ => ?_
  rw [← hplane k, List.map_flatMap]
  refine List.flatMap_congr fun j _ => ?_
  rw [List.map_map]
  exact hrow j k

theorem nest_places (nx ny nz : ℤ) : (nest (upto 0 nz) (upto 0 ny) (upto 0 nx)).map (cellPlace nx ny) =
    (List.range (nest (upto 0 nz) (upto 0 ny) (upto 0 nx)).length).map fun n : ℕ => 0 + (n : ℤ) := by
  obtain ⟨N, hN⟩ := exists_nest_places nx ny nz
  have hlength := congrArg List.length hN
  rw [List.length_map, length_upto] at hlength
  rw [hN, hlength]
  rfl

theorem nest_pairwise (nx ny nz : ℤ) :
    (nest (upto 0 nz) (upto 0 ny) (upto 0 nx)).Pairwise fun c d => cellPlace nx ny c < cellPlace nx ny d := by
  obtain ⟨N, hN⟩ := exists_nest_places nx ny nz
  exact List.pairwise_map.mp (hN ▸ upto_pairwise_lt 0 N)

end IntLoop
