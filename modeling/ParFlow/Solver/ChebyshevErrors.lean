import Mathlib.Tactic.Module
import ParFlow.Lib.ChebyshevIteration
import ParFlow.Solver.Krylov

/-! The errors of `Chebyshev` are those of the Chebyshev iteration that starts from zero. -/

namespace ParFlow.Krylov

open Polynomial ChebyshevIteration
open scoped Numerals

variable {V K E : Type} [Field K] [AddCommGroup E] [Module K E] {R : VectorRoutines V K} {Valid : V → Prop}
  {val : V → E} {inner : LinearMap.BilinForm K E} {A : E →ₗ[K] E}

/-- The matrix for which the polynomials give the errors. -/
noncomputable def shifted (A : E →ₗ[K] E) (d : K) : Module.End K E := d • LinearMap.id - A

/-- The state after the iteration `n + 1`, for the solution `y`. -/
structure ChebyshevAt (Valid : V → Prop) (val : V → E) (A : E →ₗ[K] E) (d a : K) (y : E) (n : ℕ) (st : ChebyshevState V K) :
    Prop where
  x_valid : Valid st.x
  r_valid : Valid st.r
  del_valid : Valid st.del
  alpha : st.alpha = (dickson 1 a n).eval d / (dickson 1 a (n + 1)).eval d
  last : (dickson 1 a (n + 1)).eval d • (y - val st.x) = aeval (shifted A d) (dickson 1 a (n + 1)) y
  former : (dickson 1 a n).eval d • (y - val st.x + val st.del) = aeval (shifted A d) (dickson 1 a n) y

theorem chebyshevStep_at (hR : Represents R Valid val inner A) {b : V} (hb : Valid b) {y : E} (hy : A y = val b) {d a : K}
    {n : ℕ}
    {st : ChebyshevState V K} (hne : ∀ k ≤ n + 2, (dickson 1 a k).eval d ≠ 0) (h : ChebyshevAt Valid val A d a y n st) :
    ChebyshevAt Valid val A d a y (n + 1) (chebyshevStep R b d a st) := by
  have hne₁ := hne (n + 1) (by omega)
  have hne₂ := hne (n + 2) le_rfl
  have hnext : (dickson 1 a (n + 2)).eval d = d * (dickson 1 a (n + 1)).eval d - a * (dickson 1 a n).eval d := by
    rw [dickson_add_two, eval_sub, eval_mul, eval_mul, eval_X, eval_C]
  have halpha : 1 / (d - a * st.alpha) = (dickson 1 a (n + 1)).eval d / (dickson 1 a (n + 2)).eval d := by
    rw [h.alpha, hnext, ← mul_div_assoc, sub_div' hne₁, one_div_div]
  obtain ⟨⟨hx, hxv⟩, hr, hrv⟩ := hR.matvec (st.i + 1) 0 (neg_ne_zero.mpr one_ne_zero : (-1 : K) ≠ 0) h.x_valid h.r_valid
  unfold chebyshevStep
  simp only
  set alpha := 1 / (d - a * st.alpha)
  set xr := R.matvec (st.i + 1) (-1) st.x 0 st.r
  obtain ⟨hr', hrv'⟩ := hR.axpy 1 hb hr
  obtain ⟨hdel, hdelv⟩ := hR.scale (d * alpha - 1) h.del_valid
  obtain ⟨hdel', hdelv'⟩ := hR.axpy alpha hr' hdel
  obtain ⟨hx', hxv'⟩ := hR.axpy 1 hdel' hx
  rw [hrv, zero_smul, add_zero, one_smul, ← hy, neg_smul, one_smul, neg_add_eq_sub, ← map_sub] at hrv'
  refine ⟨hx', hr', hdel', halpha, ?_, ?_⟩
  · have hscale : (dickson 1 a (n + 2)).eval d * alpha = (dickson 1 a (n + 1)).eval d := by
      rw [halpha, mul_div_cancel₀ _ hne₂]
    show (dickson 1 a (n + 2)).eval d • (y - val (R.axpy 1 _ xr.1)) = _
    rw [dickson_add_two, map_sub, map_mul, map_mul, aeval_X, aeval_C, LinearMap.sub_apply, Module.End.mul_apply,
      Module.End.mul_apply, Module.algebraMap_end_apply, ← h.last, ← h.former, shifted, LinearMap.sub_apply,
      LinearMap.smul_apply, LinearMap.id_apply, map_smul, hxv', hdelv', hdelv, hrv', hxv, one_smul]
    have hbeta : (dickson 1 a (n + 2)).eval d * (d * alpha - 1) = a * (dickson 1 a n).eval d := by
      linear_combination d * hscale - hnext
    calc (dickson 1 a (n + 2)).eval d • (y - (val st.x + ((d * alpha - 1) • val st.del + alpha • A (y - val st.x))))
        = (dickson 1 a (n + 2)).eval d • (y - val st.x) - ((dickson 1 a (n + 2)).eval d * (d * alpha - 1)) • val st.del -
            ((dickson 1 a (n + 2)).eval d * alpha) • A (y - val st.x) := by module
      _ = _ := by
          rw [hbeta, hscale, hnext]
          module
  · show _ • (y - val (R.axpy 1 _ xr.1) + val _) = _
    rw [hxv', one_smul, hxv, sub_add_eq_sub_sub, sub_add_cancel, h.last]

section Run

variable {r del x b : V} {y : E} {ia ib : K} {n : ℕ}

/-- The interval as the iteration has it: the centre, and the square of a quarter of the length. -/
def centre (ia ib : K) : K := 1 / 2 * (ib + ia)

def quarterSquare (ia ib : K) : K := 1 / 4 * (ib - ia) * (1 / 4 * (ib - ia))

theorem chebyshev_eq (R : VectorRoutines V K) (r del x b : V) (ia ib : K) (n : ℕ) : chebyshev R r del x b ia ib (n + 1) =
    ((chebyshevStep R b (centre ia ib) (quarterSquare ia ib))^[n] ⟨1, R.scale (1 / centre ia ib) (R.copy b x), r,
      R.copy (R.scale (1 / centre ia ib) (R.copy b x)) del, 1 / centre ia ib * 2⟩).x := by
  unfold chebyshev
  rw [if_neg (by omega)]
  cases n with
  | zero => rfl
  | succ n =>
    rw [if_neg (by omega), add_sub_cancel_right, Int.toNat_natCast]
    rfl

theorem chebyshevAt_start (hR : Represents R Valid val inner A) (hr : Valid r) (hdel : Valid del) (hx : Valid x)
    (hb : Valid b)
    (hy : A y = val b) {d a : K} (hd : d ≠ 0) : ChebyshevAt Valid val A d a y 0
      ⟨1, R.scale (1 / d) (R.copy b x), r, R.copy (R.scale (1 / d) (R.copy b x)) del, 1 / d * 2⟩ := by
  obtain ⟨hcopy, hcopyv⟩ := hR.copy hb hx
  obtain ⟨hx₁, hx₁v⟩ := hR.scale (1 / d) hcopy
  obtain ⟨hdel₁, hdel₁v⟩ := hR.copy hx₁ hdel
  have htwo : (dickson 1 a 0) = C 2 := by
    rw [dickson_zero, C_ofNat]
    norm_num
  refine ⟨hx₁, hr, hdel₁, ?_, ?_, ?_⟩
  · rw [htwo, dickson_one, eval_C, eval_X, one_div_mul_eq_div]
  · rw [dickson_one, eval_X, aeval_X, shifted, LinearMap.sub_apply, LinearMap.smul_apply, LinearMap.id_apply, hx₁v, hcopyv,
      ← hy, smul_sub, smul_smul, mul_one_div_cancel hd, one_smul]
  · rw [htwo, eval_C, aeval_C, Module.algebraMap_end_apply, hdel₁v, sub_add_cancel]

theorem chebyshev_at (hR : Represents R Valid val inner A) (hr : Valid r) (hdel : Valid del) (hx : Valid x) (hb : Valid b)
    (hy : A y = val b) (hne : ∀ k ≤ n + 1, (dickson 1 (quarterSquare ia ib) k).eval (centre ia ib) ≠ 0) :
    Valid (chebyshev R r del x b ia ib (n + 1)) ∧ (dickson 1 (quarterSquare ia ib) (n + 1)).eval (centre ia ib) •
        (y - val (chebyshev R r del x b ia ib (n + 1))) =
      aeval (shifted A (centre ia ib)) (dickson 1 (quarterSquare ia ib) (n + 1)) y := by
  have hd : centre ia ib ≠ 0 := by simpa using hne 1 (by omega)
  rw [chebyshev_eq]
  have hrun : ∀ m ≤ n, ChebyshevAt Valid val A (centre ia ib) (quarterSquare ia ib) y m
      ((chebyshevStep R b (centre ia ib) (quarterSquare ia ib))^[m] ⟨1, R.scale (1 / centre ia ib) (R.copy b x), r,
        R.copy (R.scale (1 / centre ia ib) (R.copy b x)) del, 1 / centre ia ib * 2⟩) := by
    intro m hm
    induction m with
    | zero => exact chebyshevAt_start hR hr hdel hx hb hy hd
    | succ m ih =>
      rw [Function.iterate_succ_apply']
      exact chebyshevStep_at hR hb hy (fun k hk => hne k (by omega)) (ih (by omega))
  exact ⟨(hrun n le_rfl).x_valid, (hrun n le_rfl).last⟩

end Run

/-! ## The error on an interval -/

section Bound

variable [LinearOrder K] [IsStrictOrderedRing K] {ia ib : K}

theorem four_quarterSquare_le (ha : 0 < ia) (hb : 0 < ib) : 4 * quarterSquare ia ib ≤ centre ia ib ^ 2 := by
  unfold quarterSquare centre
  nlinarith [mul_pos ha hb]

theorem centre_pos (ha : 0 < ia) (hb : 0 < ib) : 0 < centre ia ib := by
  unfold centre
  positivity

omit [LinearOrder K] [IsStrictOrderedRing K] in
theorem shifted_symm (hA : ∀ u v, inner (A u) v = inner u (A v)) (d : K) (u v : E) :
    inner (shifted A d u) v = inner u (shifted A d v) := by
  simp only [shifted, LinearMap.sub_apply, LinearMap.smul_apply, LinearMap.id_apply, map_sub, map_smul, hA]

/-- The forms of the shifted matrix lie within half of the length. -/
theorem inner_shifted_le (hA : ∀ u v, inner (A u) v = inner u (A v)) (hle : ia ≤ ib)
    (hlo : ∀ u, ia * inner u u ≤ inner (A u) u)
    (hhi : ∀ u, inner (A u) u ≤ ib * inner u u) (u : E) : inner (shifted A (centre ia ib) u) (shifted A (centre ia ib) u) ≤
      4 * quarterSquare ia ib * inner u u := by
  have hform : ∀ u, inner (shifted A (centre ia ib) u) u = centre ia ib * inner u u - inner (A u) u := by
    intro u
    rw [shifted, LinearMap.sub_apply, LinearMap.smul_apply, LinearMap.id_apply, map_sub, map_smul, LinearMap.sub_apply,
      LinearMap.smul_apply, smul_eq_mul]
  have hbound := inner_apply_le (shifted_symm hA (centre ia ib)) (m := 1 / 2 * (ib - ia))
    (fun u => by rw [hform]; unfold centre; linarith [hhi u]) (fun u => by rw [hform]; unfold centre; linarith [hlo u])
    (by linarith) u
  rwa [show (1 / 2 * (ib - ia)) ^ 2 = 4 * quarterSquare ia ib by unfold quarterSquare; ring] at hbound

variable {r del x b : V} {y : E} {n : ℕ}

theorem chebyshev_error_le (hR : Represents R Valid val inner A) (hr : Valid r) (hdel : Valid del) (hx : Valid x)
    (hb : Valid b)
    (hy : A y = val b) (hA : ∀ u v, inner (A u) v = inner u (A v)) (ha : 0 < ia) (hle : ia ≤ ib)
    (hlo : ∀ u, ia * inner u u ≤ inner (A u) u) (hhi : ∀ u, inner (A u) u ≤ ib * inner u u) :
    (dickson 1 (quarterSquare ia ib) (n + 1)).eval (centre ia ib) ^ 2 *
        inner (y - val (chebyshev R r del x b ia ib (n + 1))) (y - val (chebyshev R r del x b ia ib (n + 1))) ≤
      4 * quarterSquare ia ib ^ (n + 1) * inner y y := by
  have hib := ha.trans_le hle
  have hgrow := dickson_eval_grow (centre_pos ha hib) (four_quarterSquare_le ha hib)
  have hat := (chebyshev_at hR hr hdel hx hb hy (n := n) fun k _ => (hgrow k).1.ne').2
  have hbound := inner_dickson_le (shifted_symm hA (centre ia ib)) (inner_shifted_le hA hle hlo hhi) n y
  rw [← hat] at hbound
  simpa only [map_smul, LinearMap.smul_apply, smul_eq_mul, ← mul_assoc, ← pow_two] using hbound

/-- Each iteration makes the error smaller by a factor that depends on the interval. -/
theorem chebyshev_error_pow_le (hnonneg : ∀ u, 0 ≤ inner u u) (hR : Represents R Valid val inner A) (hr : Valid r)
    (hdel : Valid del) (hx : Valid x) (hb : Valid b) (hy : A y = val b) (hA : ∀ u v, inner (A u) v = inner u (A v))
    (ha : 0 < ia) (hle : ia ≤ ib) (hlo : ∀ u, ia * inner u u ≤ inner (A u) u) (hhi : ∀ u, inner (A u) u ≤ ib * inner u u) :
    (ib + ia) ^ (2 * (n + 1)) *
        inner (y - val (chebyshev R r del x b ia ib (n + 1))) (y - val (chebyshev R r del x b ia ib (n + 1))) ≤
      (ib - ia) ^ (2 * (n + 1)) * inner y y := by
  have hib := ha.trans_le hle
  have herror := chebyshev_error_le (n := n) hR hr hdel hx hb hy hA ha hle hlo hhi
  generalize y - val (chebyshev R r del x b ia ib (n + 1)) = e at herror
  have hge := dickson_eval_ge (centre_pos ha hib) (four_quarterSquare_le ha hib) (n + 1)
  have hcentre : 0 ≤ 2 * (centre ia ib / 2) ^ (n + 1) := by
    have := centre_pos ha hib
    positivity
  have hsq : (2 * (centre ia ib / 2) ^ (n + 1)) ^ 2 * inner e e ≤ 4 * quarterSquare ia ib ^ (n + 1) * inner y y :=
    (mul_le_mul_of_nonneg_right (pow_le_pow_left₀ hcentre hge 2) (hnonneg e)).trans herror
  have hleft : (2 * (centre ia ib / 2) ^ (n + 1)) ^ 2 = 4 * (1 / 4) ^ (2 * (n + 1)) * (ib + ia) ^ (2 * (n + 1)) := by
    rw [mul_assoc, ← mul_pow, mul_pow, ← pow_mul, mul_comm (n + 1) 2, show (centre ia ib / 2) = 1 / 4 * (ib + ia) by
      unfold centre; ring]
    norm_num
  have hright : quarterSquare ia ib ^ (n + 1) = (1 / 4) ^ (2 * (n + 1)) * (ib - ia) ^ (2 * (n + 1)) := by
    rw [← mul_pow, pow_mul, quarterSquare, pow_two]
  rw [hleft, hright] at hsq
  have hfour : (0 : K) < 4 * (1 / 4) ^ (2 * (n + 1)) := by positivity
  refine le_of_mul_le_mul_left ?_ hfour
  linarith

end Bound

end ParFlow.Krylov
