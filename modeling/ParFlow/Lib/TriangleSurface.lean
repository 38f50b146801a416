import Mathlib

/-! The net flow out of a finite set of cells along an axis. -/

namespace NetFlow

variable {ι M : Type*} [DecidableEq ι] [AddCommGroup M]

/-- A face between two cells of the set does not count; `f c` is the flow through the face before the cell `c`. -/
theorem sum_faces (next : Equiv.Perm ι) (A : Finset ι) (f : ι → M) : ∑ c ∈ A, (f (next c) - f c) =
    ∑ c ∈ A with next c ∉ A, f (next c) - ∑ c ∈ A with next.symm c ∉ A, f c := by
  have hinner : ∑ c ∈ A with next c ∈ A, f (next c) = ∑ c ∈ A with next.symm c ∈ A, f c := by
    refine Finset.sum_nbij' next next.symm (fun c hc => ?_) (fun c hc => ?_) (fun c _ => next.symm_apply_apply c)
      (fun c _ => next.apply_symm_apply c) fun c _ => rfl
    · rw [Finset.mem_filter] at hc ⊢
      rw [next.symm_apply_apply]
      exact hc.symm
    · rw [Finset.mem_filter] at hc ⊢
      rw [next.apply_symm_apply]
      exact hc.symm
  rw [Finset.sum_sub_distrib, ← Finset.sum_filter_add_sum_filter_not A (fun c => next c ∈ A) fun c => f (next c),
    ← Finset.sum_filter_add_sum_filter_not A (fun c => next.symm c ∈ A) f, hinner]
  abel

/-- With opposite flows through the two sides of a face, what flows through the faces of all cells is what flows through those
that border on no other cell. -/
theorem sum_exposed (next : Equiv.Perm ι) (A : Finset ι) (low high : ι → M) (h : ∀ c, high c = -low (next c)) :
    ∑ c ∈ A, (low c + high c) = ∑ c ∈ A with next.symm c ∉ A, low c + ∑ c ∈ A with next c ∉ A, high c := by
  have hfaces := sum_faces next A fun c => -low c
  simp only [← h, sub_neg_eq_add, Finset.sum_neg_distrib] at hfaces
  rw [add_comm (∑ c ∈ A with next.symm c ∉ A, low c), ← hfaces]
  exact Finset.sum_congr rfl fun c _ => add_comm _ _

end NetFlow

/-! Closed surfaces of triangles. A surface is closed and consistently oriented when every directed edge occurs as often as its
reverse; so are the outer faces of a set of boxes when the triangles of neighbouring boxes cancel. -/

namespace TriangleSurface

open NetFlow

variable {V W : Type*}

/-- The directed edges of a triangle. -/
def edges (t : V × V × V) : List (V × V) := [(t.1, t.2.1), (t.2.1, t.2.2), (t.2.2, t.1)]

def mapCorners (f : V → W) (t : V × V × V) : W × W × W := (f t.1, f t.2.1, f t.2.2)

theorem flatMap_edges_map (f : V → W) (l : List (V × V × V)) :
    (l.map (mapCorners f)).flatMap edges = (l.flatMap edges).map (Prod.map f f) := by
  rw [List.flatMap_map, List.map_flatMap]
  rfl

section

variable [DecidableEq V] [DecidableEq W]

def Closed (l : List (V × V × V)) : Prop := ∀ a b, (l.flatMap edges).count (a, b) = (l.flatMap edges).count (b, a)

instance [Fintype V] (l : List (V × V × V)) : Decidable (Closed l) := inferInstanceAs (Decidable (∀ _, _))

/-- How much more often an edge occurs than its reverse. -/
def chain (l : List (V × V × V)) (a b : V) : ℤ := (l.flatMap edges).count (a, b) - (l.flatMap edges).count (b, a)

variable {l l' : List (V × V × V)}

theorem closed_iff_chain : Closed l ↔ chain l = 0 := by
  unfold Closed chain
  constructor
  · intro h
    funext a b
    rw [h a b, sub_self]
    rfl
  · intro h a b
    have hab := congrFun (congrFun h a) b
    exact Int.ofNat.inj (sub_eq_zero.mp hab)

theorem chain_append : chain (l ++ l') = chain l + chain l' := by
  funext a b
  unfold chain
  rw [Pi.add_apply, Pi.add_apply, List.flatMap_append, List.count_append, List.count_append]
  push_cast
  ring

theorem chain_flatMap {ι : Type*} (s : List ι) (f : ι → List (V × V × V)) :
    chain (s.flatMap f) = (s.map fun x => chain (f x)).sum := by
  induction s with
  | nil =>
    funext a b
    exact sub_self _
  | cons x s ih => rw [List.flatMap_cons, chain_append, ih, List.map_cons, List.sum_cons]

theorem Closed.of_perm (h : Closed l) (hperm : l'.Perm l) : Closed l' := by
  intro a b
  have hedges := hperm.flatMap_right edges
  rw [hedges.count_eq, hedges.count_eq]
  exact h a b

theorem closed_iff_perm : Closed l ↔ (l.flatMap edges).Perm ((l.flatMap edges).map Prod.swap) := by
  have hswap : ∀ a b : V, ((l.flatMap edges).map Prod.swap).count (a, b) = (l.flatMap edges).count (b, a) := fun a b =>
    List.count_map_of_injective _ _ Prod.swap_injective (b, a)
  rw [List.perm_iff_count]
  constructor
  · exact fun h e => (h e.1 e.2).trans (hswap e.1 e.2).symm
  · exact fun h a b => (h (a, b)).trans (hswap a b)

/-- Corners may be renamed, and even identified. -/
theorem Closed.map (f : V → W) (h : Closed l) : Closed (l.map (mapCorners f)) := by
  rw [closed_iff_perm] at h ⊢
  rw [flatMap_edges_map, List.map_map]
  have hmap := h.map (Prod.map f f)
  rwa [List.map_map] at hmap

end

/-! ## Boxes -/

inductive Side where
  | top | bottom | west | east | south | north
  deriving DecidableEq, Repr

def Side.all : List Side := [.top, .bottom, .west, .east, .south, .north]

theorem Side.mem_all (side : Side) : side ∈ Side.all := by cases side <;> decide

/-- Where the box behind a side stands. -/
def Side.offset : Side → ℤ × ℤ
  | .top => (0, 0)
  | .bottom => (0, 0)
  | .west => (-1, 0)
  | .east => (1, 0)
  | .south => (0, -1)
  | .north => (0, 1)

/-- The corners of a box; `true` is the greater coordinate. -/
abbrev Corner := Bool × Bool × Bool

def Side.Contains : Side → Corner → Prop
  | .top, c => c.2.2 = true
  | .bottom, c => c.2.2 = false
  | .west, c => c.1 = false
  | .east, c => c.1 = true
  | .south, c => c.2.1 = false
  | .north, c => c.2.1 = true

instance : ∀ (side : Side) (c : Corner), Decidable (side.Contains c)
  | .top, c => inferInstanceAs (Decidable (c.2.2 = true))
  | .bottom, c => inferInstanceAs (Decidable (c.2.2 = false))
  | .west, c => inferInstanceAs (Decidable (c.1 = false))
  | .east, c => inferInstanceAs (Decidable (c.1 = true))
  | .south, c => inferInstanceAs (Decidable (c.2.1 = false))
  | .north, c => inferInstanceAs (Decidable (c.2.1 = true))

/-- Triangles for the six sides of a box that close it, such that those of two neighbouring boxes cancel. -/
structure BoxPattern where
  faces : Side → List (Corner × Corner × Corner)
  box : Closed (Side.all.flatMap faces)
  contains : ∀ side ∈ Side.all, ∀ t ∈ faces side, side.Contains t.1 ∧ side.Contains t.2.1 ∧ side.Contains t.2.2
  acrossX : Closed ((faces .east ++ faces .west).map (mapCorners Prod.snd))
  acrossY : Closed ((faces .north ++ faces .south).map (mapCorners fun c => (c.1, c.2.2)))

/-- The point at a corner of the box that stands at `c`. -/
def cornerPoint (c : ℤ × ℤ) (p : Corner) : ℤ × ℤ × Bool := (c.1 + p.1.toNat, c.2 + p.2.1.toNat, p.2.2)

/-- The outer faces of boxes: tops, bottoms, and sides without a box behind them. -/
def Exposed (A : Finset (ℤ × ℤ)) (f : (ℤ × ℤ) × Side) : Prop :=
  f.1 ∈ A ∧ (f.2 = .top ∨ f.2 = .bottom ∨ f.1 + f.2.offset ∉ A)

instance (A : Finset (ℤ × ℤ)) (f : (ℤ × ℤ) × Side) : Decidable (Exposed A f) := inferInstanceAs (Decidable (_ ∧ _))

namespace BoxPattern

variable (P : BoxPattern) (w : ℤ × ℤ × Bool → V)

/-- The triangles of a face, where `w` names the points. -/
def faceTriangles (f : (ℤ × ℤ) × Side) : List (V × V × V) := (P.faces f.2).map (mapCorners fun p => w (cornerPoint f.1 p))

variable {P} [DecidableEq V]

omit [DecidableEq V] in
theorem faceTriangles_eq {f : (ℤ × ℤ) × Side} {U : Type*} {forget : Corner → U} {g : U → V}
    (h : ∀ p, f.2.Contains p → w (cornerPoint f.1 p) = g (forget p)) :
    P.faceTriangles w f = ((P.faces f.2).map (mapCorners forget)).map (mapCorners g) := by
  unfold faceTriangles
  rw [List.map_map]
  refine List.map_congr_left fun t ht => ?_
  obtain ⟨h1, h2, h3⟩ := P.contains f.2 f.2.mem_all t ht
  exact Prod.ext (h t.1 h1) (Prod.ext (h t.2.1 h2) (h t.2.2 h3))

/-- The triangles of the two boxes at a face across x are opposite. -/
theorem chain_acrossX (c : ℤ × ℤ) :
    chain (P.faceTriangles w (c, .east)) = -chain (P.faceTriangles w (c + (1, 0), .west)) := by
  have heast : P.faceTriangles w (c, .east) = ((P.faces .east).map (mapCorners Prod.snd)).map
      (mapCorners fun q => w (c.1 + 1, c.2 + q.1.toNat, q.2)) := faceTriangles_eq w fun p hp => by
    have hx : p.1 = true := hp
    simp only [cornerPoint, hx]
    rfl
  have hwest : P.faceTriangles w (c + (1, 0), .west) = ((P.faces .west).map (mapCorners Prod.snd)).map
      (mapCorners fun q => w (c.1 + 1, c.2 + q.1.toNat, q.2)) := faceTriangles_eq w fun p hp => by
    have hx : p.1 = false := hp
    simp [cornerPoint, hx]
  have hclosed := P.acrossX.map fun q => w (c.1 + 1, c.2 + q.1.toNat, q.2)
  rw [List.map_append, List.map_append, ← heast, ← hwest, closed_iff_chain, chain_append] at hclosed
  exact eq_neg_of_add_eq_zero_left hclosed

theorem chain_acrossY (c : ℤ × ℤ) :
    chain (P.faceTriangles w (c, .north)) = -chain (P.faceTriangles w (c + (0, 1), .south)) := by
  have hnorth : P.faceTriangles w (c, .north) = ((P.faces .north).map (mapCorners fun c => (c.1, c.2.2))).map
      (mapCorners fun q => w (c.1 + q.1.toNat, c.2 + 1, q.2)) := faceTriangles_eq w fun p hp => by
    have hy : p.2.1 = true := hp
    simp only [cornerPoint, hy]
    rfl
  have hsouth : P.faceTriangles w (c + (0, 1), .south) = ((P.faces .south).map (mapCorners fun c => (c.1, c.2.2))).map
      (mapCorners fun q => w (c.1 + q.1.toNat, c.2 + 1, q.2)) := faceTriangles_eq w fun p hp => by
    have hy : p.2.1 = false := hp
    simp [cornerPoint, hy]
  have hclosed := P.acrossY.map fun q => w (c.1 + q.1.toNat, c.2 + 1, q.2)
  rw [List.map_append, List.map_append, ← hnorth, ← hsouth, closed_iff_chain, chain_append] at hclosed
  exact eq_neg_of_add_eq_zero_left hclosed

theorem chain_box (c : ℤ × ℤ) : (Side.all.map fun side => chain (P.faceTriangles w (c, side))).sum = 0 := by
  have hclosed := P.box.map fun p => w (cornerPoint c p)
  rw [List.map_flatMap, closed_iff_chain, chain_flatMap] at hclosed
  exact hclosed

/-- The outer faces of boxes that follow a pattern make a closed surface, wherever their points lie. -/
theorem exposed_closed (A : Finset (ℤ × ℤ)) {faces : List ((ℤ × ℤ) × Side)} (hnodup : faces.Nodup)
    (hmem : ∀ f, f ∈ faces ↔ Exposed A f) : Closed (faces.flatMap (P.faceTriangles w)) := by
  let F := fun c side => chain (P.faceTriangles w (c, side))
  have hset : faces.toFinset = {f ∈ A ×ˢ Side.all.toFinset | Exposed A f} := by
    ext f
    rw [List.mem_toFinset, hmem, Finset.mem_filter, Finset.mem_product, List.mem_toFinset]
    exact ⟨fun h => ⟨⟨h.1, f.2.mem_all⟩, h⟩, fun h => h.2⟩
  have hsides : ∀ g : Side → V → V → ℤ, ∑ side ∈ Side.all.toFinset, g side =
      g .top + g .bottom + (g .west + g .east) + (g .south + g .north) := by
    intro g
    rw [List.sum_toFinset _ (by decide)]
    simp only [Side.all, List.map_cons, List.map_nil, List.sum_cons, List.sum_nil, add_zero]
    abel
  have hx := sum_exposed (Equiv.addRight ((1, 0) : ℤ × ℤ)) A (fun c => F c .west) (fun c => F c .east) fun c =>
    chain_acrossX w c
  have hy := sum_exposed (Equiv.addRight ((0, 1) : ℤ × ℤ)) A (fun c => F c .south) (fun c => F c .north) fun c =>
    chain_acrossY w c
  have hbox : ∀ c, F c .top + F c .bottom + (F c .west + F c .east) + (F c .south + F c .north) = 0 := by
    intro c
    rw [← hsides (F c), List.sum_toFinset _ (by decide)]
    exact chain_box w c
  have htop : ∀ c ∈ A, ∀ side, (side = .top ∨ side = .bottom) → Exposed A (c, side) := fun c hc side h =>
    ⟨hc, h.elim Or.inl fun h => Or.inr (Or.inl h)⟩
  have hside : ∀ side, side ≠ .top ∧ side ≠ .bottom → ∀ c ∈ A, (Exposed A (c, side) ↔ c + side.offset ∉ A) := by
    intro side h c hc
    exact ⟨fun he => (he.2.resolve_left h.1).resolve_left h.2, fun he => ⟨hc, Or.inr (Or.inr he)⟩⟩
  have hwest := hside .west (by decide)
  have heast := hside .east (by decide)
  have hsouth := hside .south (by decide)
  have hnorth := hside .north (by decide)
  rw [closed_iff_chain, chain_flatMap, ← List.sum_toFinset _ hnodup, hset, Finset.sum_filter, Finset.sum_product]
  calc ∑ c ∈ A, ∑ side ∈ Side.all.toFinset, (if Exposed A (c, side) then F c side else 0)
      = ∑ c ∈ A, (F c .top + F c .bottom + ((if c + Side.west.offset ∉ A then F c .west else 0) +
          if c + Side.east.offset ∉ A then F c .east else 0) +
          ((if c + Side.south.offset ∉ A then F c .south else 0) +
          if c + Side.north.offset ∉ A then F c .north else 0)) := by
        refine Finset.sum_congr rfl fun c hc => ?_
        rw [hsides, if_pos (htop c hc _ (Or.inl rfl)), if_pos (htop c hc _ (Or.inr rfl))]
        simp only [hwest c hc, heast c hc, hsouth c hc, hnorth c hc]
    _ = ∑ c ∈ A, (F c .top + F c .bottom + (F c .west + F c .east) + (F c .south + F c .north)) := by
        simp only [Finset.sum_add_distrib] at hx hy ⊢
        rw [hx, hy, Finset.sum_filter, Finset.sum_filter, Finset.sum_filter, Finset.sum_filter]
        rfl
    _ = 0 := Finset.sum_eq_zero fun c _ => hbox c

end BoxPattern

end TriangleSurface
