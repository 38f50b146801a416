import ParFlow.Lib.Strided
import ParFlow.Grid.SubgridDefs

/-! The box loop macros of `loops.h`. An index into a data array is carried along and moved by
increments at the end of each column, row and plane. -/

namespace ParFlow

open IntLoop Strided

section Defs

/-- The iterations of a box loop, with the state at each of them. -/
def boxLoop {σ : Type} (moveX moveY moveZ : σ → σ) (ix iy iz nx ny nz : ℤ) (st : σ) : List (Cell × σ) :=
  (sweep (fun k st => sweep (fun j st => sweep (fun i st => ([((i, j, k), st)], st)) moveX nx.toNat ix st)
    moveY ny.toNat iy st) moveZ nz.toNat iz st).1

/-- `PV_jinc` and `PV_kinc` of `DeclareInc`. -/
def declareInc (nx ny nxd nyd sx sy sz : ℤ) : ℤ × ℤ := (sy * nxd - nx * sx, sz * nxd * nyd - ny * sy * nxd)

variable (ix iy iz nx ny nz : ℤ)

def boxLoopI0 : List Cell := nest (upto iz (iz + nz)) (upto iy (iy + ny)) (upto ix (ix + nx))

def boxLoopI1 (i1 nx1 ny1 sx1 sy1 sz1 : ℤ) : List (Cell × ℤ) :=
  let inc := declareInc nx ny nx1 ny1 sx1 sy1 sz1
  boxLoop (· + sx1) (· + inc.1) (· + inc.2) ix iy iz nx ny nz i1

def boxLoopI2 (i1 nx1 ny1 sx1 sy1 sz1 i2 nx2 ny2 sx2 sy2 sz2 : ℤ) : List (Cell × ℤ × ℤ) :=
  let inc1 := declareInc nx ny nx1 ny1 sx1 sy1 sz1
  let inc2 := declareInc nx ny nx2 ny2 sx2 sy2 sz2
  boxLoop (· + (sx1, sx2)) (· + (inc1.1, inc2.1)) (· + (inc1.2, inc2.2)) ix iy iz nx ny nz (i1, i2)

end Defs

variable {ix iy iz nx ny nz : ℤ}

/-- The state of a box loop whose moves add constants. -/
theorem boxLoop_eq {σ : Type} [AddCommGroup σ] (hx : 0 ≤ nx) (hy : 0 ≤ ny) (hz : 0 ≤ nz) (dx dy dz st : σ) :
    boxLoop (· + dx) (· + dy) (· + dz) ix iy iz nx ny nz st =
      (boxLoopI0 ix iy iz nx ny nz).map fun c => (c, st + (c.2.2 - iz) • (ny • (nx • dx + dy) + dz) +
        (c.2.1 - iy) • (nx • dx + dy) + (c.1 - ix) • dx) := by
  have hrow : ∀ (j k : ℤ) (st : σ), sweep (fun i st => ([((i, j, k), st)], st)) (· + dx) nx.toNat ix st =
      ((upto ix (ix + nx)).map fun i => (((i, j, k) : Cell), st + (i - ix) • dx), st + nx • dx) := by
    intro j k st
    have hcell : ∀ (i : ℤ) (st : σ), ([(((i, j, k) : Cell), st)], st) = ([((i, j, k), st)], st + 0) := by
      intro i st
      rw [add_zero]
    rw [sweep_eq hcell, Int.toNat_of_nonneg hx, zero_add, ← List.map_eq_flatMap]
  have hplane : ∀ (k : ℤ) (st : σ),
      sweep (fun j st => sweep (fun i st => ([((i, j, k), st)], st)) (· + dx) nx.toNat ix st) (· + dy) ny.toNat iy st =
        ((upto iy (iy + ny)).flatMap fun j => (upto ix (ix + nx)).map fun i =>
          (((i, j, k) : Cell), st + (j - iy) • (nx • dx + dy) + (i - ix) • dx), st + ny • (nx • dx + dy)) := by
    intro k st
    rw [sweep_eq fun j st => hrow j k st, Int.toNat_of_nonneg hy]
  unfold boxLoop
  rw [sweep_eq fun k st => hplane k st, Int.toNat_of_nonneg hz]
  simp only [boxLoopI0, nest, List.map_flatMap, List.map_map, Function.comp_def]

theorem boxLoopI1_eq (hx : 0 ≤ nx) (hy : 0 ≤ ny) (hz : 0 ≤ nz) (i1 nx1 ny1 sx1 sy1 sz1 : ℤ) :
    boxLoopI1 ix iy iz nx ny nz i1 nx1 ny1 sx1 sy1 sz1 = (boxLoopI0 ix iy iz nx ny nz).map fun c =>
      (c, i1 + (c.1 - ix) * sx1 + (c.2.1 - iy) * (sy1 * nx1) + (c.2.2 - iz) * (sz1 * nx1 * ny1)) := by
  unfold boxLoopI1 declareInc
  rw [boxLoop_eq hx hy hz]
  apply List.map_congr_left
  intro c _
  simp only [smul_eq_mul, Prod.mk.injEq, true_and]
  ring

theorem boxLoopI2_eq (hx : 0 ≤ nx) (hy : 0 ≤ ny) (hz : 0 ≤ nz)
    (i1 nx1 ny1 sx1 sy1 sz1 i2 nx2 ny2 sx2 sy2 sz2 : ℤ) :
    boxLoopI2 ix iy iz nx ny nz i1 nx1 ny1 sx1 sy1 sz1 i2 nx2 ny2 sx2 sy2 sz2 =
      (boxLoopI0 ix iy iz nx ny nz).map fun c =>
        (c, i1 + (c.1 - ix) * sx1 + (c.2.1 - iy) * (sy1 * nx1) + (c.2.2 - iz) * (sz1 * nx1 * ny1),
          i2 + (c.1 - ix) * sx2 + (c.2.1 - iy) * (sy2 * nx2) + (c.2.2 - iz) * (sz2 * nx2 * ny2)) := by
  unfold boxLoopI2 declareInc
  rw [boxLoop_eq hx hy hz]
  apply List.map_congr_left
  intro c _
  simp only [Prod.smul_mk, Prod.mk_add_mk, smul_eq_mul, Prod.mk.injEq, true_and]
  constructor <;> ring

theorem mem_boxLoopI0 {c : Cell} : c ∈ boxLoopI0 ix iy iz nx ny nz ↔ (ix ≤ c.1 ∧ c.1 < ix + nx) ∧
    (iy ≤ c.2.1 ∧ c.2.1 < iy + ny) ∧ iz ≤ c.2.2 ∧ c.2.2 < iz + nz := by
  simp [boxLoopI0]

theorem boxLoopI0_nodup : (boxLoopI0 ix iy iz nx ny nz).Nodup :=
  nest_nodup (upto_nodup _ _) (upto_nodup _ _) (upto_nodup _ _)

theorem length_boxLoopI0 (hx : 0 ≤ nx) (hy : 0 ≤ ny) (hz : 0 ≤ nz) :
    ((boxLoopI0 ix iy iz nx ny nz).length : ℤ) = nx * ny * nz := by
  rw [boxLoopI0, length_nest, length_upto, length_upto, length_upto]
  push_cast
  rw [Int.toNat_of_nonneg (by omega), Int.toNat_of_nonneg (by omega), Int.toNat_of_nonneg (by omega)]
  ring

end ParFlow
