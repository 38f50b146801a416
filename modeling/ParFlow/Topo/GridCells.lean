import ParFlow.Topo.UpstreamDefs

/-! The cells of a grid, and the loops that set the coefficients of all of them. -/

namespace ParFlow.Topo

open IntLoop
open ParFlow.Pfb (Databox)

/-! ## Coefficients -/

section

variable {K : Type} {sx area : Databox K} {c d : ℤ × ℤ} {v : K}

def IsCell (sx : Databox K) (c : ℤ × ℤ) : Prop := (0 ≤ c.1 ∧ c.1 < sx.nx) ∧ 0 ≤ c.2 ∧ c.2 < sx.ny

instance (sx : Databox K) (c : ℤ × ℤ) : Decidable (IsCell sx c) :=
  inferInstanceAs (Decidable ((0 ≤ c.1 ∧ c.1 < sx.nx) ∧ 0 ≤ c.2 ∧ c.2 < sx.ny))

theorem mem_gridLoop : c ∈ gridLoop sx.nx sx.ny ↔ IsCell sx c := by
  rw [gridLoop, mem_rows, mem_upto, mem_upto]
  rfl

theorem gridLoop_nodup (nx ny : ℤ) : (gridLoop nx ny).Nodup := rows_nodup (upto_nodup 0 ny) (upto_nodup 0 nx)

@[simp] theorem setCoeff_nx (i j : ℤ) : (setCoeff area i j v).nx = area.nx := rfl

@[simp] theorem coeffAt_setCoeff (i j : ℤ) : coeffAt (setCoeff area i j v) i j = v := Function.update_self _ _ _

@[simp] theorem setCoeff_setCoeff (i j : ℤ) (w : K) : setCoeff (setCoeff area i j v) i j w = setCoeff area i j w := by
  unfold setCoeff
  congr 1
  exact Function.update_idem _ _ _

@[simp] theorem setCoeff_self (i j : ℤ) : setCoeff area i j (coeffAt area i j) = area := by
  unfold setCoeff coeffAt
  rw [Function.update_eq_self]

/-- Different cells of the grid have different places. -/
theorem coeffAt_setCoeff_of_ne (hnx : area.nx = sx.nx) (hc : IsCell sx c) (hd : IsCell sx d) (hne : d ≠ c) :
    coeffAt (setCoeff area c.1 c.2 v) d.1 d.2 = coeffAt area d.1 d.2 := by
  refine Function.update_of_ne ?_ _ _
  show 0 * area.ny * area.nx + d.2 * area.nx + d.1 ≠ 0 * area.ny * area.nx + c.2 * area.nx + c.1
  rw [hnx]
  intro heq
  obtain ⟨⟨hc1, hc1'⟩, -⟩ := hc
  obtain ⟨⟨hd1, hd1'⟩, -⟩ := hd
  have hrow : ∀ {j j' : ℤ}, j < j' → j * sx.nx + sx.nx ≤ j' * sx.nx := by
    intro j j' hlt
    have hmul := mul_le_mul_of_nonneg_right (show j + 1 ≤ j' from hlt) (show 0 ≤ sx.nx by omega)
    rwa [add_mul, one_mul] at hmul
  rcases lt_trichotomy d.2 c.2 with hlt | hsame | hlt
  · have := hrow hlt
    omega
  · rw [hsame] at heq
    exact hne (Prod.ext (by omega) hsame)
  · have := hrow hlt
    omega

end

/-! ## Loops over the grid -/

section

variable {K : Type} {sx area : Databox K} {c d : ℤ × ℤ}

/-- `for (j ...) for (i ...) *DataboxCoeff(databox, i, j, 0) = f(i, j)`. -/
def setGrid (nx ny : ℤ) (f : ℤ → ℤ → K) (databox : Databox K) : Databox K :=
  (gridLoop nx ny).foldl (fun databox c => setCoeff databox c.1 c.2 (f c.1 c.2)) databox

theorem foldl_setCoeff_nx (f : ℤ × ℤ → K) (l : List (ℤ × ℤ)) :
    (l.foldl (fun area c => setCoeff area c.1 c.2 (f c)) area).nx = area.nx := by
  induction l generalizing area with
  | nil => rfl
  | cons c l ih => exact ih

@[simp] theorem setGrid_nx (nx ny : ℤ) (f : ℤ → ℤ → K) : (setGrid nx ny f area).nx = area.nx :=
  foldl_setCoeff_nx (fun c => f c.1 c.2) _

theorem foldl_setCoeff_ny (f : ℤ × ℤ → K) (l : List (ℤ × ℤ)) :
    (l.foldl (fun area c => setCoeff area c.1 c.2 (f c)) area).ny = area.ny := by
  induction l generalizing area with
  | nil => rfl
  | cons c l ih => exact ih

@[simp] theorem setGrid_ny (nx ny : ℤ) (f : ℤ → ℤ → K) : (setGrid nx ny f area).ny = area.ny :=
  foldl_setCoeff_ny (fun c => f c.1 c.2) _

/-- The cells of the loop get their values, and the other cells keep what they have. -/
theorem coeffAt_foldl_setCoeff (f : ℤ × ℤ → K) {l : List (ℤ × ℤ)} (hl : ∀ c ∈ l, IsCell sx c) (hnx : area.nx = sx.nx)
    (hd : IsCell sx d) :
    coeffAt (l.foldl (fun area c => setCoeff area c.1 c.2 (f c)) area) d.1 d.2 =
      if d ∈ l then f d else coeffAt area d.1 d.2 := by
  induction l generalizing area with
  | nil => simp
  | cons c l ih =>
    have hset : (setCoeff area c.1 c.2 (f c)).nx = sx.nx := hnx
    rw [List.foldl_cons, ih (fun e he => hl e (List.mem_cons_of_mem _ he)) hset]
    by_cases hdl : d ∈ l
    · rw [if_pos hdl, if_pos (List.mem_cons_of_mem _ hdl)]
    · rw [if_neg hdl]
      by_cases hdc : d = c
      · rw [hdc, coeffAt_setCoeff, if_pos List.mem_cons_self]
      · rw [coeffAt_setCoeff_of_ne hnx (hl c List.mem_cons_self) hd hdc, if_neg (by simp [hdc, hdl])]

/-- The same where the new value of a cell depends on the old one. -/
theorem coeffAt_foldl_update (g : ℤ × ℤ → K → K) {l : List (ℤ × ℤ)} (hl : ∀ c ∈ l, IsCell sx c) (hnodup : l.Nodup)
    (hnx : area.nx = sx.nx) (hd : IsCell sx d) :
    coeffAt (l.foldl (fun area c => setCoeff area c.1 c.2 (g c (coeffAt area c.1 c.2))) area) d.1 d.2 =
      if d ∈ l then g d (coeffAt area d.1 d.2) else coeffAt area d.1 d.2 := by
  induction l generalizing area with
  | nil => simp
  | cons c l ih =>
    obtain ⟨hcl, hnodup'⟩ := List.nodup_cons.mp hnodup
    have hset : (setCoeff area c.1 c.2 (g c (coeffAt area c.1 c.2))).nx = sx.nx := hnx
    rw [List.foldl_cons, ih (fun e he => hl e (List.mem_cons_of_mem _ he)) hnodup' hset]
    by_cases hdc : d = c
    · rw [hdc, if_neg hcl, if_pos List.mem_cons_self, coeffAt_setCoeff]
    · rw [coeffAt_setCoeff_of_ne hnx (hl c List.mem_cons_self) hd hdc]
      exact if_congr (by simp [hdc]) rfl rfl

theorem coeffAt_setGrid (f : ℤ → ℤ → K) (hnx : area.nx = sx.nx) (hd : IsCell sx d) :
    coeffAt (setGrid sx.nx sx.ny f area) d.1 d.2 = f d.1 d.2 := by
  unfold setGrid
  rw [coeffAt_foldl_setCoeff (fun c => f c.1 c.2) (fun c hc => mem_gridLoop.mp hc) hnx hd, if_pos (mem_gridLoop.mpr hd)]

end

section

variable {K : Type} [Field K] (dem : Databox K)

def HasData (c : ℤ × ℤ) : Prop := coeffAt dem c.1 c.2 ≠ nodata

instance [LinearOrder K] : DecidablePred (HasData dem) := fun c => inferInstanceAs (Decidable (coeffAt dem c.1 c.2 ≠ nodata))

end

end ParFlow.Topo
