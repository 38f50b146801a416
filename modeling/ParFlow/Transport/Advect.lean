import Mathlib.Tactic.FieldSimp
import Mathlib.Tactic.Linarith
import Mathlib.Tactic.Ring
import ParFlow.Lib.PointLoop
import ParFlow.Transport.AdvectDefs

/-! What `advect` computes: the new value of a cell is the difference of fluxes through its faces. The flux through a face is
the same for both cells at it, and depends neither on the contents of the scratch arrays nor on the order of their use. -/

namespace ParFlow.Advect

open IntLoop PointLoop

variable {K : Type} [Field K] [LinearOrder K]

/-! ## The slopes without scratch arrays -/

/-- The limited slope of a sequence. -/
def slopeAt (f : ℤ → K) (i : ℤ) : K :=
  limited (centred (f (i - 1)) (f i) (f (i + 1))) (fromm (centred (f i) (f (i + 1)) (f (i + 2))))
    (fromm (centred (f (i - 2)) (f (i - 1)) (f i)))

/-- A line of slopes does not depend on what the scratch array had. -/
theorem slopeLines_get (s : ℤ × ℤ → K) {at' : ℤ → ℤ → ℤ × ℤ} (hinj : ∀ {l l' i i'}, at' l i = at' l' i' → l = l' ∧ i = i')
    {lines : List ℤ} {lo hi : ℤ} (sl : ℤ × ℤ → K) (scr : ℤ → SlopeScratch K × K) {l i : ℤ} (hl : l ∈ lines)
    (hi' : lo - 1 ≤ i ∧ i < hi + 2) :
    (slopeLines s at' lines lo hi sl scr).1 (at' l i) = slopeAt (fun i => s (at' l i)) i := by
  refine foldl_get_of_mem (fun st : (ℤ × ℤ → K) × (ℤ → SlopeScratch K × K) => st.1 (at' l i)) ?_ ?_ hl (sl, scr)
  · rintro ⟨sl, scr⟩
    have hscr : ∀ m, lo - 2 ≤ m ∧ m < hi + 3 →
        ((upto (lo - 2) (hi + 3)).foldl (fun scr i =>
          Function.update scr i (centred (s (at' l (i - 1))) (s (at' l i)) (s (at' l (i + 1))),
            fromm (centred (s (at' l (i - 1))) (s (at' l i)) (s (at' l (i + 1)))))) scr) m =
        (centred (s (at' l (m - 1))) (s (at' l m)) (s (at' l (m + 1))),
          fromm (centred (s (at' l (m - 1))) (s (at' l m)) (s (at' l (m + 1))))) := fun m hm =>
      upto_get (fun i => i) (fun _ _ h => h) _ _ _ scr hm
    refine (upto_get (at' l) (fun _ _ h => (hinj h).2) _ _ _ sl hi').trans ?_
    simp only
    rw [hscr i (by omega), hscr (i + 1) (by omega), hscr (i - 1) (by omega)]
    simp only [slopeAt, add_sub_cancel_right, sub_add_cancel, add_assoc, sub_sub, Int.reduceAdd]
  · rintro ⟨sl, scr⟩ l' _ hne
    exact upto_get_of_ne (at' l') _ _ _ sl fun i' _ h => hne (hinj h).1

theorem slopexy_get (s : ℤ × ℤ × ℤ → K) (k : ℤ) (b : Extent) (st : Scratch K) {i j : ℤ} (hi : b.is - 1 ≤ i ∧ i < b.ie + 2)
    (hj : b.js - 1 ≤ j ∧ j < b.je + 2) : (slopexy s k b st).slx (i, j) = slopeAt (fun i => s (i, j, k)) i ∧
      (slopexy s k b st).sly (i, j) = slopeAt (fun j => s (i, j, k)) j := by
  constructor
  · exact slopeLines_get (fun c => s (c.1, c.2, k)) (fun h => ⟨(Prod.mk.inj h).2, (Prod.mk.inj h).1⟩) st.slx st.dxscr
      (mem_upto.mpr hj) hi
  · exact slopeLines_get (fun c => s (c.1, c.2, k)) (fun h => Prod.mk.inj h) st.sly st.dyscr (mem_upto.mpr hi) hj

theorem slopezRow_get (s : ℤ × ℤ × ℤ → K) (k : ℤ) (b : Extent) (j : ℤ) (scr : (ℤ → SlopeScratch K) × (ℤ × ℤ → K)) {i : ℤ}
    (hi : b.is - 1 ≤ i ∧ i < b.ie + 2) :
    limited ((slopezRow s k b j scr).1 i) ((slopezRow s k b j scr).2 (i, 3)) ((slopezRow s k b j scr).2 (i, 1)) =
      slopeAt (fun k => s (i, j, k)) k := by
  refine foldl_get_of_mem (fun scr : (ℤ → SlopeScratch K) × (ℤ × ℤ → K) => limited (scr.1 i) (scr.2 (i, 3)) (scr.2 (i, 1)))
    (fun scr => ?_) (fun scr i' _ hne => ?_) (mem_upto.mpr hi) scr
  · simp [Function.update_of_ne, slopeAt, sub_sub, add_assoc]
  · simp [Function.update_of_ne, Ne.symm hne]

theorem slopez_get (s : ℤ × ℤ × ℤ → K) (k kk : ℤ) (b : Extent) (st : Scratch K) {i j : ℤ} (hi : b.is - 1 ≤ i ∧ i < b.ie + 2)
    (hj : b.js - 1 ≤ j ∧ j < b.je + 2) : (slopez s k kk b st).slz (i, j, kk) = slopeAt (fun k => s (i, j, k)) k := by
  refine foldl_get_of_mem (fun st : Scratch K => st.slz (i, j, kk)) (fun st => ?_) (fun st j' _ hne => ?_) (mem_upto.mpr hj)
    st
  · refine (upto_get (fun i => (i, j, kk)) (fun _ _ h => (Prod.mk.inj h).1) _ _ _ st.slz hi).trans ?_
    exact slopezRow_get s k b j (st.dzscr, st.dzfrm) hi
  · exact upto_get_of_ne (fun i => (i, j', kk)) _ _ _ st.slz fun i' _ h =>
      hne (Prod.mk.inj (Prod.mk.inj h).2).1

/-- The other planes are left alone. -/
theorem slopez_get_of_ne (s : ℤ × ℤ × ℤ → K) (k : ℤ) {kk l : ℤ} (b : Extent) (st : Scratch K) (i j : ℤ) (hne : l ≠ kk) :
    (slopez s k kk b st).slz (i, j, l) = st.slz (i, j, l) := by
  refine foldl_get_of_keep (fun st : Scratch K => st.slz (i, j, l)) (fun st j' _ => ?_) st
  exact upto_get_of_ne (fun i => (i, j', kk)) _ _ _ st.slz fun i' _ h =>
    hne (Prod.mk.inj (Prod.mk.inj h).2).2.symm

theorem slopez_keep {β : Type} (get : Scratch K → β) (hget : ∀ (st : Scratch K) slz dzscr dzfrm,
    get { st with dzscr := dzscr, dzfrm := dzfrm, slz := slz } = get st) (s : ℤ × ℤ × ℤ → K) (k kk : ℤ) (b : Extent)
    (st : Scratch K) : get (slopez s k kk b st) = get st :=
  foldl_get_of_keep get (fun st _ _ => hget st _ _ _) st

/-! ## Traces and faces -/

section Spec

variable (P : Input K) (firstord : Bool)

def Input.slopeX (k : ℤ) (c : ℤ × ℤ) : K := slopeAt (fun i => P.s (i, c.2, k)) c.1

def Input.slopeY (k : ℤ) (c : ℤ × ℤ) : K := slopeAt (fun j => P.s (c.1, j, k)) c.2

def Input.slopeZ (k : ℤ) (c : ℤ × ℤ) : K := slopeAt (fun k => P.s (c.1, c.2, k)) k

def Input.traces (i j k : ℤ) : Traces K :=
  cellTraces P firstord (P.slopeX k) (P.slopeY k) (P.slopeZ (k - 1)) (P.slopeZ k) (P.slopeZ (k + 1)) i j k

/-- The values that are carried through the faces below a cell. -/
def Input.faceX (i j k : ℤ) : K := upwind (P.uedge (i, j, k)) (P.traces firstord (i - 1) j k).left
    (P.traces firstord i j k).right

def Input.faceY (i j k : ℤ) : K := upwind (P.vedge (i, j, k)) (P.traces firstord i (j - 1) k).bck
    (P.traces firstord i j k).frt

def Input.faceZ (i j k : ℤ) : K := upwind (P.wedge (i, j, k)) (P.traces firstord i j (k - 1)).bot
    (P.traces firstord i j k).top

def Input.afterX (i j k : ℤ) : K := P.s (i, j, k) - P.dt * (P.uedge (i + 1, j, k) * P.faceX firstord (i + 1) j k -
  P.uedge (i, j, k) * P.faceX firstord i j k) / (P.dx * P.phi (i, j, k))

def Input.afterY (i j k : ℤ) : K := P.afterX firstord i j k - P.dt * (P.vedge (i, j + 1, k) * P.faceY firstord i (j + 1) k -
  P.vedge (i, j, k) * P.faceY firstord i j k) / (P.dy * P.phi (i, j, k))

def Input.afterLow (i j k : ℤ) : K := P.afterY firstord i j k +
  P.dt * (P.wedge (i, j, k) * P.faceZ firstord i j k * (1 / P.dz)) / P.phi (i, j, k)

/-- The new value of a cell. -/
def Input.advected (i j k : ℤ) : K := P.afterLow firstord i j k -
  P.dt * (P.wedge (i, j, k + 1) * P.faceZ firstord i j (k + 1) * (1 / P.dz)) / P.phi (i, j, k)

end Spec

/-! ## What the traces read -/

section Reads

variable {P : Input K} {firstord : Bool} {slx sly zm zc zp slx' sly' zm' zc' zp' : ℤ × ℤ → K} {i j k : ℤ}

/-- The slopes are read only by the scheme of second order. -/
def AgreeAt (firstord : Bool) (f f' : ℤ × ℤ → K) (i j : ℤ) : Prop := firstord = false → f (i, j) = f' (i, j)

theorem traces_x (hx : AgreeAt firstord slx slx' i j) (hy : ∀ d ∈ [-1, 0, 1], AgreeAt firstord sly sly' i (j + d))
    (hm : AgreeAt firstord zm zm' i j) (hc : AgreeAt firstord zc zc' i j) (hp : AgreeAt firstord zp zp' i j) :
    (cellTraces P firstord slx sly zm zc zp i j k).left = (cellTraces P firstord slx' sly' zm' zc' zp' i j k).left ∧
      (cellTraces P firstord slx sly zm zc zp i j k).right = (cellTraces P firstord slx' sly' zm' zc' zp' i j k).right := by
  cases firstord with
  | true => exact ⟨rfl, rfl⟩
  | false =>
    have h₁ : sly (i, j - 1) = sly' (i, j - 1) := hy (-1) (by simp) rfl
    have h₂ : sly (i, j) = sly' (i, j) := by simpa using hy 0 (by simp) rfl
    have h₃ : sly (i, j + 1) = sly' (i, j + 1) := hy 1 (by simp) rfl
    simp only [cellTraces, hx rfl, h₁, h₂, h₃, hm rfl, hc rfl, hp rfl, and_self]

theorem traces_y (hx : ∀ d ∈ [-1, 0, 1], AgreeAt firstord slx slx' (i + d) j) (hy : AgreeAt firstord sly sly' i j)
    (hm : AgreeAt firstord zm zm' i j) (hc : AgreeAt firstord zc zc' i j) (hp : AgreeAt firstord zp zp' i j) :
    (cellTraces P firstord slx sly zm zc zp i j k).bck = (cellTraces P firstord slx' sly' zm' zc' zp' i j k).bck ∧
      (cellTraces P firstord slx sly zm zc zp i j k).frt = (cellTraces P firstord slx' sly' zm' zc' zp' i j k).frt := by
  cases firstord with
  | true => exact ⟨rfl, rfl⟩
  | false =>
    have h₁ : slx (i - 1, j) = slx' (i - 1, j) := hx (-1) (by simp) rfl
    have h₂ : slx (i, j) = slx' (i, j) := by simpa using hx 0 (by simp) rfl
    have h₃ : slx (i + 1, j) = slx' (i + 1, j) := hx 1 (by simp) rfl
    simp only [cellTraces, hy rfl, h₁, h₂, h₃, hm rfl, hc rfl, hp rfl, and_self]

/-- The values for the faces in z do not use the neighbouring planes of slopes. -/
theorem traces_z (hx : ∀ d ∈ [-1, 0, 1], AgreeAt firstord slx slx' (i + d) j)
    (hy : ∀ d ∈ [-1, 0, 1], AgreeAt firstord sly sly' i (j + d)) (hc : AgreeAt firstord zc zc' i j) :
    (cellTraces P firstord slx sly zm zc zp i j k).bot = (cellTraces P firstord slx' sly' zm' zc' zp' i j k).bot ∧
      (cellTraces P firstord slx sly zm zc zp i j k).top = (cellTraces P firstord slx' sly' zm' zc' zp' i j k).top := by
  cases firstord with
  | true => exact ⟨rfl, rfl⟩
  | false =>
    have h₁ : slx (i - 1, j) = slx' (i - 1, j) := hx (-1) (by simp) rfl
    have h₂ : slx (i, j) = slx' (i, j) := by simpa using hx 0 (by simp) rfl
    have h₃ : slx (i + 1, j) = slx' (i + 1, j) := hx 1 (by simp) rfl
    have h₄ : sly (i, j - 1) = sly' (i, j - 1) := hy (-1) (by simp) rfl
    have h₅ : sly (i, j) = sly' (i, j) := by simpa using hy 0 (by simp) rfl
    have h₆ : sly (i, j + 1) = sly' (i, j + 1) := hy 1 (by simp) rfl
    simp only [cellTraces, h₁, h₂, h₃, h₄, h₅, h₆, hc rfl, and_self]

end Reads

/-! ## The loop over the rows -/

section Rows

variable {P : Input K} {firstord : Bool} {b : Extent} {T : ℤ → ℤ → Traces K} {i j k : ℤ}

omit [Field K] [LinearOrder K] in
theorem traceRow_get (scr : Scratch K) (hi : b.is - 1 ≤ i ∧ i < b.ie + 2) :
    ((traceRow T b j scr).sleft (i + 1) = (T i j).left ∧ (traceRow T b j scr).sright i = (T i j).right) ∧
    ((traceRow T b j scr).sbck (i, j + 1) = (T i j).bck ∧ (traceRow T b j scr).sfrt (i, j) = (T i j).frt) ∧
    (traceRow T b j scr).sbotp (i, j) = (T i j).bot ∧ (traceRow T b j scr).sTop (i, j) = (T i j).top := by
  have hmem := mem_upto.mpr hi
  refine ⟨⟨?_, ?_⟩, ⟨?_, ?_⟩, ?_, ?_⟩
  · refine foldl_get_of_mem (fun scr : Scratch K => scr.sleft (i + 1)) (fun scr => ?_) (fun scr i' _ hne => ?_) hmem scr
    · exact Function.update_self _ _ _
    · exact Function.update_of_ne (fun h => hne (by omega)) _ _
  · refine foldl_get_of_mem (fun scr : Scratch K => scr.sright i) (fun scr => ?_) (fun scr i' _ hne => ?_) hmem scr
    · exact Function.update_self _ _ _
    · exact Function.update_of_ne hne.symm _ _
  · refine foldl_get_of_mem (fun scr : Scratch K => scr.sbck (i, j + 1)) (fun scr => ?_) (fun scr i' _ hne => ?_) hmem scr
    · exact Function.update_self _ _ _
    · exact Function.update_of_ne (fun h => hne (Prod.mk.inj h).1.symm) _ _
  · refine foldl_get_of_mem (fun scr : Scratch K => scr.sfrt (i, j)) (fun scr => ?_) (fun scr i' _ hne => ?_) hmem scr
    · exact Function.update_self _ _ _
    · exact Function.update_of_ne (fun h => hne (Prod.mk.inj h).1.symm) _ _
  · refine foldl_get_of_mem (fun scr : Scratch K => scr.sbotp (i, j)) (fun scr => ?_) (fun scr i' _ hne => ?_) hmem scr
    · exact Function.update_self _ _ _
    · exact Function.update_of_ne (fun h => hne (Prod.mk.inj h).1.symm) _ _
  · refine foldl_get_of_mem (fun scr : Scratch K => scr.sTop (i, j)) (fun scr => ?_) (fun scr i' _ hne => ?_) hmem scr
    · exact Function.update_self _ _ _
    · exact Function.update_of_ne (fun h => hne (Prod.mk.inj h).1.symm) _ _

omit [Field K] [LinearOrder K] in
/-- A row writes to its own part of the arrays of two dimensions. -/
theorem traceRow_get_of_ne (scr : Scratch K) {j' : ℤ} (hne : j' ≠ j) :
    ((traceRow T b j' scr).sbck (i, j + 1) = scr.sbck (i, j + 1) ∧ (traceRow T b j' scr).sfrt (i, j) = scr.sfrt (i, j)) ∧
    (traceRow T b j' scr).sbotp (i, j) = scr.sbotp (i, j) ∧ (traceRow T b j' scr).sTop (i, j) = scr.sTop (i, j) := by
  have hrow : ∀ {i' : ℤ}, (i, j) ≠ (i', j') := fun h => hne (Prod.mk.inj h).2.symm
  refine ⟨⟨?_, ?_⟩, ?_, ?_⟩
  · refine foldl_get_of_keep (fun scr : Scratch K => scr.sbck (i, j + 1)) (fun scr i' _ => ?_) scr
    exact Function.update_of_ne (fun h => hne (by have := (Prod.mk.inj h).2; omega)) _ _
  · exact foldl_get_of_keep (fun scr : Scratch K => scr.sfrt (i, j)) (fun scr i' _ => Function.update_of_ne hrow _ _) scr
  · exact foldl_get_of_keep (fun scr : Scratch K => scr.sbotp (i, j)) (fun scr i' _ => Function.update_of_ne hrow _ _) scr
  · exact foldl_get_of_keep (fun scr : Scratch K => scr.sTop (i, j)) (fun scr i' _ => Function.update_of_ne hrow _ _) scr

theorem addX_get (scr : Scratch K) (sn : ℤ × ℤ × ℤ → K) (hi : b.is ≤ i ∧ i < b.ie + 1) : addX P b j k scr sn (i, j, k) =
    P.s (i, j, k) - P.dt * (P.uedge (i + 1, j, k) * upwind (P.uedge (i + 1, j, k)) (scr.sleft (i + 1)) (scr.sright (i + 1)) -
      P.uedge (i, j, k) * upwind (P.uedge (i, j, k)) (scr.sleft i) (scr.sright i)) / (P.dx * P.phi (i, j, k)) :=
  upto_get (fun i => (i, j, k)) (fun _ _ h => (Prod.mk.inj h).1) _ _ _ sn hi

theorem addX_get_of_ne (scr : Scratch K) (sn : ℤ × ℤ × ℤ → K) {c : ℤ × ℤ × ℤ}
    (hc : ∀ i, b.is ≤ i ∧ i < b.ie + 1 → (i, j, k) ≠ c) : addX P b j k scr sn c = sn c :=
  upto_get_of_ne (fun i => (i, j, k)) _ _ _ sn hc

end Rows

/-- A state has the slopes for plane `k`, as far as they can be had. -/
structure HasSlopes (P : Input K) (firstord : Bool) (b : Extent) (k : ℤ) (st : State K) : Prop where
  x : ∀ i j, b.is - 1 ≤ i ∧ i < b.ie + 2 → b.js - 1 ≤ j ∧ j < b.je + 2 → AgreeAt firstord st.scr.slx (P.slopeX k) i j
  y : ∀ i j, b.is - 1 ≤ i ∧ i < b.ie + 2 → b.js - 1 ≤ j ∧ j < b.je + 2 → AgreeAt firstord st.scr.sly (P.slopeY k) i j
  zc : ∀ i j, b.is - 1 ≤ i ∧ i < b.ie + 2 → b.js - 1 ≤ j ∧ j < b.je + 2 →
    AgreeAt firstord (fun c => st.scr.slz (c.1, c.2, st.kc)) (P.slopeZ k) i j
  zm : b.ks ≤ k → ∀ i j, b.is - 1 ≤ i ∧ i < b.ie + 2 → b.js - 1 ≤ j ∧ j < b.je + 2 →
    AgreeAt firstord (fun c => st.scr.slz (c.1, c.2, st.km)) (P.slopeZ (k - 1)) i j
  zp : k ≤ b.ke → ∀ i j, b.is - 1 ≤ i ∧ i < b.ie + 2 → b.js - 1 ≤ j ∧ j < b.je + 2 →
    AgreeAt firstord (fun c => st.scr.slz (c.1, c.2, st.kp)) (P.slopeZ (k + 1)) i j

namespace HasSlopes

variable {P : Input K} {firstord : Bool} {b : Extent} {k i j : ℤ} {st : State K}

theorem traces_x (h : HasSlopes P firstord b k st) (hk : b.ks ≤ k ∧ k ≤ b.ke) (hi : b.is - 1 ≤ i ∧ i < b.ie + 2)
    (hj : b.js ≤ j ∧ j ≤ b.je) : (planeTraces P firstord k st i j).left = (P.traces firstord i j k).left ∧
      (planeTraces P firstord k st i j).right = (P.traces firstord i j k).right := by
  refine Advect.traces_x (h.x i j hi (by omega)) (fun d hd => h.y i (j + d) hi ?_) (h.zm hk.1 i j hi (by omega))
    (h.zc i j hi (by omega)) (h.zp hk.2 i j hi (by omega))
  simp only [List.mem_cons, List.not_mem_nil, or_false] at hd
  omega

theorem traces_y (h : HasSlopes P firstord b k st) (hk : b.ks ≤ k ∧ k ≤ b.ke) (hi : b.is ≤ i ∧ i ≤ b.ie)
    (hj : b.js - 1 ≤ j ∧ j < b.je + 2) : (planeTraces P firstord k st i j).bck = (P.traces firstord i j k).bck ∧
      (planeTraces P firstord k st i j).frt = (P.traces firstord i j k).frt := by
  refine Advect.traces_y (fun d hd => h.x (i + d) j ?_ hj) (h.y i j (by omega) hj) (h.zm hk.1 i j (by omega) hj)
    (h.zc i j (by omega) hj) (h.zp hk.2 i j (by omega) hj)
  simp only [List.mem_cons, List.not_mem_nil, or_false] at hd
  omega

theorem traces_z (h : HasSlopes P firstord b k st) (hi : b.is ≤ i ∧ i ≤ b.ie) (hj : b.js ≤ j ∧ j ≤ b.je) :
    (planeTraces P firstord k st i j).bot = (P.traces firstord i j k).bot ∧
      (planeTraces P firstord k st i j).top = (P.traces firstord i j k).top := by
  refine Advect.traces_z (fun d hd => h.x (i + d) j ?_ (by omega)) (fun d hd => h.y i (j + d) (by omega) ?_)
    (h.zc i j (by omega) (by omega))
  all_goals
    simp only [List.mem_cons, List.not_mem_nil, or_false] at hd
    omega

end HasSlopes

section Planes

variable {P : Input K} {firstord : Bool} {b : Extent} {k i j : ℤ} {st : State K}

theorem traceRows_keep (P : Input K) (firstord : Bool) (b : Extent) (k : ℤ) (st : State K) :
    (traceRows P firstord b k st).scr.slz = st.scr.slz ∧
    (traceRows P firstord b k st).scr.sbot = st.scr.sbot ∧ (traceRows P firstord b k st).km = st.km ∧
    (traceRows P firstord b k st).kc = st.kc ∧ (traceRows P firstord b k st).kp = st.kp := by
  have hrow : ∀ {β : Type} (get : Scratch K → β), (∀ scr t i j, get (writeTraces t i j scr) = get scr) → ∀ T j scr,
      get (traceRow T b j scr) = get scr :=
    fun get hget T j scr => foldl_get_of_keep get (fun scr i _ => hget scr _ i j) scr
  refine ⟨?_, ?_, ?_, ?_, ?_⟩
  · exact foldl_get_of_keep (fun st : State K => st.scr.slz)
      (fun st j _ => hrow (fun scr => scr.slz) (fun _ _ _ _ => rfl) _ j st.scr) st
  · exact foldl_get_of_keep (fun st : State K => st.scr.sbot)
      (fun st j _ => hrow (fun scr => scr.sbot) (fun _ _ _ _ => rfl) _ j st.scr) st
  · refine foldl_get_of_keep (fun st : State K => st.km) (fun st j _ => ?_) st
    rfl
  · refine foldl_get_of_keep (fun st : State K => st.kc) (fun st j _ => ?_) st
    rfl
  · refine foldl_get_of_keep (fun st : State K => st.kp) (fun st j _ => ?_) st
    rfl

theorem traceRows_planes (P : Input K) (firstord : Bool) (k : ℤ) (st : State K) (hi : b.is - 1 ≤ i ∧ i < b.ie + 2)
    (hj : b.js - 1 ≤ j ∧ j < b.je + 2) :
    ((traceRows P firstord b k st).scr.sbck (i, j + 1) = (planeTraces P firstord k st i j).bck ∧
      (traceRows P firstord b k st).scr.sfrt (i, j) = (planeTraces P firstord k st i j).frt) ∧
    (traceRows P firstord b k st).scr.sbotp (i, j) = (planeTraces P firstord k st i j).bot ∧
    (traceRows P firstord b k st).scr.sTop (i, j) = (planeTraces P firstord k st i j).top := by
  have hmem := mem_upto.mpr hj
  refine ⟨⟨?_, ?_⟩, ?_, ?_⟩
  · exact foldl_get_of_mem (fun st : State K => st.scr.sbck (i, j + 1)) (fun st => (traceRow_get st.scr hi).2.1.1)
      (fun st j' _ hne => (traceRow_get_of_ne st.scr hne).1.1) hmem st
  · exact foldl_get_of_mem (fun st : State K => st.scr.sfrt (i, j)) (fun st => (traceRow_get st.scr hi).2.1.2)
      (fun st j' _ hne => (traceRow_get_of_ne st.scr hne).1.2) hmem st
  · exact foldl_get_of_mem (fun st : State K => st.scr.sbotp (i, j)) (fun st => (traceRow_get st.scr hi).2.2.1)
      (fun st j' _ hne => (traceRow_get_of_ne st.scr hne).2.1) hmem st
  · exact foldl_get_of_mem (fun st : State K => st.scr.sTop (i, j)) (fun st => (traceRow_get st.scr hi).2.2.2)
      (fun st j' _ hne => (traceRow_get_of_ne st.scr hne).2.2) hmem st

/-- The x contributions are those of the faces. -/
theorem traceRows_sn (h : HasSlopes P firstord b k st) (hk : b.ks ≤ k ∧ k ≤ b.ke) (hi : b.is ≤ i ∧ i ≤ b.ie)
    (hj : b.js ≤ j ∧ j ≤ b.je) : (traceRows P firstord b k st).sn (i, j, k) = P.afterX firstord i j k := by
  have hj' : b.js - 1 ≤ j ∧ j < b.je + 2 := by omega
  refine foldl_get_of_mem (fun st : State K => st.sn (i, j, k)) (fun st' => ?_) (fun st' j' _ hne => ?_) (mem_upto.mpr hj')
    st
  · show (if (b.ks ≤ k ∧ k ≤ b.ke) ∧ b.js ≤ j ∧ j ≤ b.je then addX P b j k _ st'.sn else st'.sn) (i, j, k) = _
    rw [if_pos ⟨hk, hj⟩, addX_get _ _ (by omega)]
    have hleft : ∀ m, b.is ≤ m ∧ m ≤ b.ie + 1 →
        upwind (P.uedge (m, j, k)) ((traceRow (planeTraces P firstord k st) b j st'.scr).sleft m)
          ((traceRow (planeTraces P firstord k st) b j st'.scr).sright m) = P.faceX firstord m j k := by
      intro m hm
      have hlo := (traceRow_get (T := planeTraces P firstord k st) (j := j) st'.scr (i := m - 1) (b := b) (by omega)).1.1
      have hhi := (traceRow_get (T := planeTraces P firstord k st) (j := j) st'.scr (i := m) (b := b) (by omega)).1.2
      rw [sub_add_cancel] at hlo
      rw [hlo, hhi, (h.traces_x hk (by omega) hj).1, (h.traces_x hk (by omega) hj).2]
      rfl
    rw [hleft i (by omega), hleft (i + 1) (by omega)]
    rfl
  · show (if _ then addX P b j' k _ st'.sn else st'.sn) (i, j, k) = st'.sn (i, j, k)
    split_ifs
    · exact addX_get_of_ne _ _ fun i' _ h => hne (Prod.mk.inj (Prod.mk.inj h).2).1
    · rfl

theorem traceRows_sn_of_not (st : State K) {c : ℤ × ℤ × ℤ}
    (hc : ¬ ((b.ks ≤ k ∧ k ≤ b.ke) ∧ (b.is ≤ c.1 ∧ c.1 ≤ b.ie) ∧ (b.js ≤ c.2.1 ∧ c.2.1 ≤ b.je) ∧ c.2.2 = k)) :
    (traceRows P firstord b k st).sn c = st.sn c := by
  refine foldl_get_of_keep (fun st : State K => st.sn c) (fun st j _ => ?_) st
  show (if _ then addX P b j k _ st.sn else st.sn) c = st.sn c
  split_ifs with hcond
  · refine addX_get_of_ne _ _ fun i hi h => hc ?_
    subst h
    exact ⟨hcond.1, ⟨hi.1, by omega⟩, hcond.2, rfl⟩
  · rfl

end Planes

/-! ## The other contributions -/

section Contributions

variable {P : Input K} {firstord : Bool} {b : Extent} {k i j : ℤ}

theorem addY_get (scr : Scratch K) (sn : ℤ × ℤ × ℤ → K) (hi : b.is ≤ i ∧ i < b.ie + 1) (hj : b.js ≤ j ∧ j < b.je + 1) :
    addY P b k scr sn (i, j, k) = sn (i, j, k) -
      P.dt * (P.vedge (i, j + 1, k) * upwind (P.vedge (i, j + 1, k)) (scr.sbck (i, j + 1)) (scr.sfrt (i, j + 1)) -
        P.vedge (i, j, k) * upwind (P.vedge (i, j, k)) (scr.sbck (i, j)) (scr.sfrt (i, j))) / (P.dy * P.phi (i, j, k)) := by
  refine foldl_get_once (fun sn : ℤ × ℤ × ℤ → K => sn (i, j, k)) (fun v => v - _) (upto_nodup _ _) (fun sn => ?_)
    (fun sn j' _ hne => ?_) (mem_upto.mpr hj) sn
  · refine foldl_get_once (fun sn : ℤ × ℤ × ℤ → K => sn (i, j, k)) (fun v => v - _) (upto_nodup _ _) (fun sn => ?_)
      (fun sn i' _ hne => ?_) (mem_upto.mpr hi) sn
    · exact Function.update_self _ _ _
    · exact Function.update_of_ne (fun h => hne (Prod.mk.inj h).1.symm) _ _
  · exact upto_get_of_ne (fun i => (i, j', k)) _ _ _ sn fun i' _ h => hne (Prod.mk.inj (Prod.mk.inj h).2).1

theorem addY_get_of_not (scr : Scratch K) (sn : ℤ × ℤ × ℤ → K) {c : ℤ × ℤ × ℤ}
    (hc : ¬ ((b.is ≤ c.1 ∧ c.1 ≤ b.ie) ∧ (b.js ≤ c.2.1 ∧ c.2.1 ≤ b.je) ∧ c.2.2 = k)) : addY P b k scr sn c = sn c := by
  refine foldl_get_of_keep (fun sn : ℤ × ℤ × ℤ → K => sn c) (fun sn j hj => ?_) sn
  refine upto_get_of_ne (fun i => (i, j, k)) _ _ _ sn fun i hi h => hc ?_
  have hj := mem_upto.mp hj
  subst h
  exact ⟨⟨hi.1, Int.lt_add_one_iff.mp hi.2⟩, ⟨hj.1, Int.lt_add_one_iff.mp hj.2⟩, rfl⟩

/-- A row of z contributions changes the plane above the faces. -/
theorem addZRow_above (sfluxz : ℤ → K) (sn : ℤ × ℤ × ℤ → K) (hi : b.is ≤ i ∧ i < b.ie + 1) (hk : k ≤ b.ke) :
    addZRow P b k j sfluxz sn (i, j, k) = sn (i, j, k) + P.dt * sfluxz i / P.phi (i, j, k) := by
  have hne : ∀ {i' : ℤ}, (i, j, k) ≠ (i', j, k - 1) := fun h => by
    have := (Prod.mk.inj (Prod.mk.inj h).2).2
    omega
  unfold addZRow
  simp only
  split_ifs with hks hke
  · refine foldl_get_once (fun sn : ℤ × ℤ × ℤ → K => sn (i, j, k)) (fun v => v + _) (upto_nodup _ _) (fun sn => ?_)
      (fun sn i' _ hne => ?_) (mem_upto.mpr hi) sn
    · exact Function.update_self _ _ _
    · exact Function.update_of_ne (fun h => hne (Prod.mk.inj h).1.symm) _ _
  · omega
  · refine foldl_get_once (fun sn : ℤ × ℤ × ℤ → K => sn (i, j, k)) (fun v => v + _) (upto_nodup _ _) (fun sn => ?_)
      (fun sn i' _ hne' => ?_) (mem_upto.mpr hi) sn
    · exact (Function.update_of_ne hne _ _).trans (Function.update_self _ _ _)
    · exact (Function.update_of_ne hne _ _).trans (Function.update_of_ne (fun h => hne' (Prod.mk.inj h).1.symm) _ _)

/-- And the one below them. -/
theorem addZRow_below (sfluxz : ℤ → K) (sn : ℤ × ℤ × ℤ → K) (hi : b.is ≤ i ∧ i < b.ie + 1) (hk : b.ks < k) :
    addZRow P b k j sfluxz sn (i, j, k - 1) = sn (i, j, k - 1) - P.dt * sfluxz i / P.phi (i, j, k - 1) := by
  have hne : ∀ {i' : ℤ}, (i, j, k - 1) ≠ (i', j, k) := fun h => by
    have := (Prod.mk.inj (Prod.mk.inj h).2).2
    omega
  unfold addZRow
  simp only
  split_ifs with hks hke
  · omega
  · refine foldl_get_once (fun sn : ℤ × ℤ × ℤ → K => sn (i, j, k - 1)) (fun v => v - _) (upto_nodup _ _) (fun sn => ?_)
      (fun sn i' _ hne => ?_) (mem_upto.mpr hi) sn
    · exact Function.update_self _ _ _
    · exact Function.update_of_ne (fun h => hne (Prod.mk.inj h).1.symm) _ _
  · refine foldl_get_once (fun sn : ℤ × ℤ × ℤ → K => sn (i, j, k - 1)) (fun v => v - _) (upto_nodup _ _) (fun sn => ?_)
      (fun sn i' _ hne' => ?_) (mem_upto.mpr hi) sn
    · refine (Function.update_self _ _ _).trans ?_
      rw [Function.update_of_ne hne]
    · exact (Function.update_of_ne (fun h => hne' (Prod.mk.inj h).1.symm) _ _).trans (Function.update_of_ne hne _ _)

omit [LinearOrder K] in
theorem addZRow_other (sfluxz : ℤ → K) (sn : ℤ × ℤ × ℤ → K) {c : ℤ × ℤ × ℤ} (hkk : b.ks ≤ b.ke)
    (hc : ¬ ((b.is ≤ c.1 ∧ c.1 ≤ b.ie) ∧ c.2.1 = j ∧ (c.2.2 = k ∧ k ≠ b.ke + 1 ∨ c.2.2 = k - 1 ∧ k ≠ b.ks))) :
    addZRow P b k j sfluxz sn c = sn c := by
  have habove : k ≠ b.ke + 1 → ∀ i, b.is ≤ i ∧ i < b.ie + 1 → c ≠ (i, j, k) := by
    rintro hk i hi rfl
    exact hc ⟨⟨hi.1, Int.lt_add_one_iff.mp hi.2⟩, rfl, Or.inl ⟨rfl, hk⟩⟩
  have hbelow : k ≠ b.ks → ∀ i, b.is ≤ i ∧ i < b.ie + 1 → c ≠ (i, j, k - 1) := by
    rintro hk i hi rfl
    exact hc ⟨⟨hi.1, Int.lt_add_one_iff.mp hi.2⟩, rfl, Or.inr ⟨rfl, hk⟩⟩
  unfold addZRow
  simp only
  split_ifs with hks hke
  · exact upto_get_of_ne (fun i => (i, j, k)) _ _ _ sn fun i hi => (habove (by omega) i hi).symm
  · exact upto_get_of_ne (fun i => (i, j, k - 1)) _ _ _ sn fun i hi => (hbelow hks i hi).symm
  · refine foldl_get_of_keep (fun sn : ℤ × ℤ × ℤ → K => sn c) (fun sn i hi => ?_) sn
    have hi := mem_upto.mp hi
    exact (Function.update_of_ne (hbelow hks i hi) _ _).trans (Function.update_of_ne (habove hke i hi) _ _)

/-- The z contributions of a plane of faces. -/
theorem addZ_get (st : State K) (hkk : b.ks ≤ b.ke) :
    (∀ i j, b.is ≤ i ∧ i < b.ie + 1 → b.js ≤ j ∧ j < b.je + 1 →
      (k ≤ b.ke → (addZ P b k st).sn (i, j, k) = st.sn (i, j, k) + P.dt * fluxZ P k st.scr i j / P.phi (i, j, k)) ∧
      (b.ks < k → (addZ P b k st).sn (i, j, k - 1) = st.sn (i, j, k - 1) - P.dt * fluxZ P k st.scr i j / P.phi
        (i, j, k - 1))) ∧
    (∀ c : ℤ × ℤ × ℤ, ¬ ((b.is ≤ c.1 ∧ c.1 ≤ b.ie) ∧ (b.js ≤ c.2.1 ∧ c.2.1 ≤ b.je) ∧
      (c.2.2 = k ∧ k ≠ b.ke + 1 ∨ c.2.2 = k - 1 ∧ k ≠ b.ks)) → (addZ P b k st).sn c = st.sn c) ∧
    (addZ P b k st).scr.slz = st.scr.slz ∧ (addZ P b k st).scr.sbotp = st.scr.sbotp ∧ (addZ P b k st).km = st.km ∧
    (addZ P b k st).kc = st.kc ∧ (addZ P b k st).kp = st.kp := by
  have hflux : ∀ (sfluxz : ℤ → K) i j, b.is ≤ i ∧ i < b.ie + 1 →
      ((upto b.is (b.ie + 1)).foldl (fun sfluxz i => Function.update sfluxz i (fluxZ P k st.scr i j)) sfluxz) i =
        fluxZ P k st.scr i j := fun sfluxz i j hi => upto_get (fun i => i) (fun _ _ h => h) _ _ _ sfluxz hi
  have hrow : ∀ {i i' j j' l l' : ℤ}, (i, j, l) = (i', j', l') → j = j' := fun h => (Prod.mk.inj (Prod.mk.inj h).2).1
  refine ⟨fun i j hi hj => ⟨fun hke => ?_, fun hks => ?_⟩, fun c hc => ?_, ?_, ?_, ?_, ?_, ?_⟩
  · refine foldl_get_once (fun st : State K => st.sn (i, j, k)) (fun v => v + _) (upto_nodup _ _) (fun st' => ?_)
      (fun st' j' _ hne => ?_) (mem_upto.mpr hj) st
    · refine (addZRow_above _ st'.sn hi hke).trans ?_
      rw [hflux _ i j hi]
    · exact addZRow_other _ _ hkk fun h => hne h.2.1.symm
  · refine foldl_get_once (fun st : State K => st.sn (i, j, k - 1)) (fun v => v - _) (upto_nodup _ _) (fun st' => ?_)
      (fun st' j' _ hne => ?_) (mem_upto.mpr hj) st
    · refine (addZRow_below _ st'.sn hi hks).trans ?_
      rw [hflux _ i j hi]
    · exact addZRow_other _ _ hkk fun h => hne h.2.1.symm
  · refine foldl_get_of_keep (fun st : State K => st.sn c) (fun st' j hj => ?_) st
    have hj := mem_upto.mp hj
    exact addZRow_other _ _ hkk fun h => hc ⟨h.1, by omega, h.2.2⟩
  · exact foldl_get_of_keep (fun st : State K => st.scr.slz) (fun _ _ _ => by rfl) st
  · exact foldl_get_of_keep (fun st : State K => st.scr.sbotp) (fun _ _ _ => by rfl) st
  · exact foldl_get_of_keep (fun st : State K => st.km) (fun _ _ _ => by rfl) st
  · exact foldl_get_of_keep (fun st : State K => st.kc) (fun _ _ _ => by rfl) st
  · exact foldl_get_of_keep (fun st : State K => st.kp) (fun _ _ _ => by rfl) st

omit [Field K] [LinearOrder K] in
theorem copyBot_get (scr : Scratch K) (hi : b.is ≤ i ∧ i < b.ie + 1) (hj : b.js ≤ j ∧ j < b.je + 1) :
    (copyBot b scr).sbot (i, j) = scr.sbotp (i, j) := by
  refine foldl_get_of_mem (fun sbot : ℤ × ℤ → K => sbot (i, j)) (fun sbot => ?_) (fun sbot j' _ hne => ?_) (mem_upto.mpr hj)
    scr.sbot
  · exact upto_get (fun i => (i, j)) (fun _ _ h => (Prod.mk.inj h).1) _ _ _ sbot hi
  · exact upto_get_of_ne (fun i => (i, j')) _ _ _ sbot fun i' _ h => hne (Prod.mk.inj h).2

end Contributions

/-! ## The loop over the planes -/

section Run

variable {P : Input K} {firstord : Bool} {b : Extent} {k : ℤ} {sn₀ : ℤ × ℤ × ℤ → K} {st : State K}

/-- The slopes of plane `l` are in the plane `m` of `slz`. -/
def HasPlane (P : Input K) (firstord : Bool) (b : Extent) (scr : Scratch K) (m l : ℤ) : Prop :=
  ∀ i j, b.is - 1 ≤ i ∧ i < b.ie + 2 → b.js - 1 ≤ j ∧ j < b.je + 2 →
    AgreeAt firstord (fun c => scr.slz (c.1, c.2, m)) (P.slopeZ l) i j

/-- Before plane `k`: the rolling planes hold the slopes of this plane and of the former one, the values for the faces are
those of the former plane, and the former plane still lacks its upper faces. -/
structure Inv (P : Input K) (firstord : Bool) (b : Extent) (sn₀ : ℤ × ℤ × ℤ → K) (k : ℤ) (st : State K) : Prop where
  planes : st.km ≠ st.kc ∧ st.kc ≠ st.kp ∧ st.km ≠ st.kp
  zc : k ≤ b.ke + 1 → HasPlane P firstord b st.scr st.kc k
  zm : b.ks ≤ k → HasPlane P firstord b st.scr st.km (k - 1)
  bot : b.ks ≤ k → ∀ i j, b.is ≤ i ∧ i ≤ b.ie → b.js ≤ j ∧ j ≤ b.je →
    st.scr.sbot (i, j) = (P.traces firstord i j (k - 1)).bot
  done : ∀ i j l, b.is ≤ i ∧ i ≤ b.ie → b.js ≤ j ∧ j ≤ b.je → b.ks ≤ l ∧ l < k - 1 →
    st.sn (i, j, l) = P.advected firstord i j l
  last : ∀ i j, b.is ≤ i ∧ i ≤ b.ie → b.js ≤ j ∧ j ≤ b.je → b.ks ≤ k - 1 ∧ k - 1 ≤ b.ke →
    st.sn (i, j, k - 1) = P.afterLow firstord i j (k - 1)
  rest : ∀ c : ℤ × ℤ × ℤ, ¬ ((b.is ≤ c.1 ∧ c.1 ≤ b.ie) ∧ (b.js ≤ c.2.1 ∧ c.2.1 ≤ b.je) ∧ b.ks ≤ c.2.2 ∧ c.2.2 ≤ b.ke) →
    st.sn c = sn₀ c
  ahead : ∀ c : ℤ × ℤ × ℤ, k ≤ c.2.2 → st.sn c = sn₀ c

/-- What the computation of the slopes leaves. -/
theorem withSlopes_slopes (P : Input K) (b : Extent) (k : ℤ) (st : State K) :
    (withSlopes P false b k st).scr.slx = (slopexy P.s k b st.scr).slx ∧
    (withSlopes P false b k st).scr.sly = (slopexy P.s k b st.scr).sly ∧ (withSlopes P false b k st).scr.sbot = st.scr.sbot ∧
    ∀ i j m, m ≠ st.kp → (withSlopes P false b k st).scr.slz (i, j, m) = st.scr.slz (i, j, m) := by
  by_cases hk : k ≤ b.ke
  · have hscr : (withSlopes P false b k st).scr = slopez P.s (k + 1) st.kp b (slopexy P.s k b st.scr) := if_pos hk
    rw [hscr]
    exact ⟨slopez_keep (fun scr => scr.slx) (fun _ _ _ _ => rfl) _ _ _ _ _,
      slopez_keep (fun scr => scr.sly) (fun _ _ _ _ => rfl) _ _ _ _ _,
      slopez_keep (fun scr => scr.sbot) (fun _ _ _ _ => rfl) _ _ _ _ _, fun i j m hm => slopez_get_of_ne _ _ _ _ i j hm⟩
  · have hscr : (withSlopes P false b k st).scr = slopexy P.s k b st.scr := if_neg hk
    rw [hscr]
    exact ⟨rfl, rfl, rfl, fun _ _ _ _ => rfl⟩

theorem withSlopes_hasSlopes (h : Inv P firstord b sn₀ k st) (hk : k ≤ b.ke + 1) :
    HasSlopes P firstord b k (withSlopes P firstord b k st) ∧ (withSlopes P firstord b k st).scr.sbot = st.scr.sbot := by
  cases firstord with
  | true => exact ⟨⟨fun _ _ _ _ h => (nomatch h), fun _ _ _ _ h => (nomatch h), fun _ _ _ _ h => (nomatch h),
      fun _ _ _ _ _ h => (nomatch h), fun _ _ _ _ _ h => (nomatch h)⟩, rfl⟩
  | false =>
    obtain ⟨hx, hy, hbot, hplane⟩ := withSlopes_slopes P b k st
    refine ⟨⟨fun i j hi hj _ => ?_, fun i j hi hj _ => ?_, fun i j hi hj _ => ?_, fun hks i j hi hj _ => ?_,
      fun hke i j hi hj _ => ?_⟩, hbot⟩
    · rw [hx]
      exact (slopexy_get P.s k b st.scr hi hj).1
    · rw [hy]
      exact (slopexy_get P.s k b st.scr hi hj).2
    · exact (hplane i j st.kc h.planes.2.1).trans (h.zc hk i j hi hj rfl)
    · exact (hplane i j st.km h.planes.2.2).trans (h.zm hks i j hi hj rfl)
    · have hscr : (withSlopes P false b k st).scr = slopez P.s (k + 1) st.kp b (slopexy P.s k b st.scr) := if_pos hke
      show (withSlopes P false b k st).scr.slz (i, j, st.kp) = _
      rw [hscr]
      exact slopez_get P.s (k + 1) st.kp b _ hi hj

/-- The flux through the lower faces of a plane. -/
theorem fluxZ_eq {scr : Scratch K} {i j : ℤ} (hbot : scr.sbot (i, j) = (P.traces firstord i j (k - 1)).bot)
    (htop : scr.sTop (i, j) = (P.traces firstord i j k).top) :
    fluxZ P k scr i j = P.wedge (i, j, k) * P.faceZ firstord i j k * (1 / P.dz) := by
  unfold fluxZ
  rw [hbot, htop]
  rfl

/-- A plane after its rows and its y contributions. -/
def afterPlane (P : Input K) (firstord : Bool) (b : Extent) (k : ℤ) (st : State K) : State K :=
  let st := traceRows P firstord b k (withSlopes P firstord b k st)
  if b.ks ≤ k ∧ k ≤ b.ke then { st with sn := addY P b k st.scr st.sn } else st

theorem afterPlane_spec (h : Inv P firstord b sn₀ k st) (hk : k ≤ b.ke + 1) :
    (∀ i j, b.is ≤ i ∧ i ≤ b.ie → b.js ≤ j ∧ j ≤ b.je → b.ks ≤ k ∧ k ≤ b.ke →
      (afterPlane P firstord b k st).sn (i, j, k) = P.afterY firstord i j k) ∧
    (∀ c : ℤ × ℤ × ℤ, ¬ ((b.is ≤ c.1 ∧ c.1 ≤ b.ie) ∧ (b.js ≤ c.2.1 ∧ c.2.1 ≤ b.je) ∧ (b.ks ≤ k ∧ k ≤ b.ke) ∧ c.2.2 = k) →
      (afterPlane P firstord b k st).sn c = st.sn c) ∧
    (∀ i j, b.is ≤ i ∧ i ≤ b.ie → b.js ≤ j ∧ j ≤ b.je →
      (afterPlane P firstord b k st).scr.sbotp (i, j) = (P.traces firstord i j k).bot ∧
      (b.ks ≤ k → fluxZ P k (afterPlane P firstord b k st).scr i j =
        P.wedge (i, j, k) * P.faceZ firstord i j k * (1 / P.dz))) ∧
    (afterPlane P firstord b k st).scr.slz = (withSlopes P firstord b k st).scr.slz ∧
    (afterPlane P firstord b k st).km = st.km ∧ (afterPlane P firstord b k st).kc = st.kc ∧
    (afterPlane P firstord b k st).kp = st.kp := by
  obtain ⟨hslopes, hbot⟩ := withSlopes_hasSlopes h hk
  have hscr : (afterPlane P firstord b k st).scr = (traceRows P firstord b k (withSlopes P firstord b k st)).scr := by
    unfold afterPlane
    split_ifs <;> rfl
  obtain ⟨hslz, hsbot, hkm, hkc, hkp⟩ := traceRows_keep P firstord b k (withSlopes P firstord b k st)
  have hplanes := fun i j (hi : b.is ≤ i ∧ i ≤ b.ie) (hj : b.js - 1 ≤ j ∧ j < b.je + 2) =>
    traceRows_planes (b := b) P firstord k (withSlopes P firstord b k st) (i := i) (j := j) (by omega) hj
  refine ⟨fun i j hi hj hin => ?_, fun c hc => ?_, fun i j hi hj => ⟨?_, fun hks => ?_⟩, by rw [hscr, hslz], ?_, ?_, ?_⟩
  · -- the values for the faces in y
    have hface : ∀ m, b.js ≤ m ∧ m ≤ b.je + 1 → upwind (P.vedge (i, m, k))
        ((traceRows P firstord b k (withSlopes P firstord b k st)).scr.sbck (i, m))
        ((traceRows P firstord b k (withSlopes P firstord b k st)).scr.sfrt (i, m)) = P.faceY firstord i m k := by
      intro m hm
      have hlo := (hplanes i (m - 1) hi (by omega)).1.1
      rw [sub_add_cancel] at hlo
      rw [hlo, (hplanes i m hi (by omega)).1.2, (hslopes.traces_y hin hi (by omega)).1,
        (hslopes.traces_y hin hi (by omega)).2]
      rfl
    unfold afterPlane
    simp only
    rw [if_pos hin]
    refine (addY_get _ _ (by omega) (by omega)).trans ?_
    rw [traceRows_sn hslopes hin hi hj, hface j (by omega), hface (j + 1) (by omega)]
    rfl
  · have hsn : (traceRows P firstord b k (withSlopes P firstord b k st)).sn c = st.sn c :=
      traceRows_sn_of_not _ fun h' => hc ⟨h'.2.1, h'.2.2.1, h'.1, h'.2.2.2⟩
    unfold afterPlane
    simp only
    split_ifs with hin
    · exact (addY_get_of_not _ _ fun h' => hc ⟨h'.1, h'.2.1, hin, h'.2.2⟩).trans hsn
    · exact hsn
  · rw [hscr, (hplanes i j hi (by omega)).2.1, (hslopes.traces_z hi hj).1]
  · refine fluxZ_eq ?_ ?_
    · rw [hscr, hsbot, hbot]
      exact h.bot hks i j hi hj
    · rw [hscr, (hplanes i j hi (by omega)).2.2, (hslopes.traces_z hi hj).2]
  all_goals
    unfold afterPlane
    simp only
    split_ifs <;> assumption

theorem Inv.step (h : Inv P firstord b sn₀ k st) (hkk : b.ks ≤ b.ke) (hk : b.ks - 1 ≤ k ∧ k ≤ b.ke + 1) :
    Inv P firstord b sn₀ (k + 1) (planeStep P firstord b st k) := by
  obtain ⟨hy, hother, hfaces, hslz, hkm, hkc, hkp⟩ := afterPlane_spec h hk.2
  obtain ⟨hslopes, -⟩ := withSlopes_hasSlopes h hk.2
  set st₃ := afterPlane P firstord b k st
  set st₄ := if b.ks ≤ k ∧ k ≤ b.ke + 1 then addZ P b k st₃ else st₃ with hst₄
  have hstep : planeStep P firstord b st k = ⟨st₄.sn, copyBot b st₄.scr, st₄.kc, st₄.kp, st₄.km⟩ := rfl
  obtain ⟨hz, hzother, hzslz, hzbot, hzm, hzc, hzp⟩ := addZ_get (P := P) (k := k) st₃ hkk
  have hkeep : st₄.scr.slz = st₃.scr.slz ∧ st₄.scr.sbotp = st₃.scr.sbotp ∧ st₄.km = st.km ∧ st₄.kc = st.kc ∧ st₄.kp =
    st.kp := by
    rw [hst₄]
    split_ifs
    · exact ⟨hzslz, hzbot, hzm.trans hkm, hzc.trans hkc, hzp.trans hkp⟩
    · exact ⟨rfl, rfl, hkm, hkc, hkp⟩
  obtain ⟨hs, hb, hm, hc, hp⟩ := hkeep
  have hsnz : b.ks ≤ k → st₄.sn = (addZ P b k st₃).sn := by
    intro hks
    rw [hst₄, if_pos ⟨hks, hk.2⟩]
  have hsn : ∀ c : ℤ × ℤ × ℤ, ¬ ((b.is ≤ c.1 ∧ c.1 ≤ b.ie) ∧ (b.js ≤ c.2.1 ∧ c.2.1 ≤ b.je) ∧ b.ks ≤ c.2.2 ∧ c.2.2 ≤ b.ke ∧
      (c.2.2 = k ∨ c.2.2 = k - 1)) → st₄.sn c = st.sn c := by
    intro c hc
    have h₃ : st₃.sn c = st.sn c := hother c fun h' => hc ⟨h'.1, h'.2.1, by omega, by omega, Or.inl h'.2.2.2⟩
    rw [hst₄]
    split_ifs with hin
    · exact (hzother c fun h' => hc ⟨h'.1, h'.2.1, by omega, by omega, by omega⟩).trans h₃
    · exact h₃
  rw [hstep]
  constructor
  · show st₄.kc ≠ st₄.kp ∧ st₄.kp ≠ st₄.km ∧ st₄.kc ≠ st₄.km
    rw [hc, hp, hm]
    exact ⟨h.planes.2.1, h.planes.2.2.symm, h.planes.1.symm⟩
  · intro hk' i j hi hj
    show AgreeAt firstord (fun c => st₄.scr.slz (c.1, c.2, st₄.kp)) _ i j
    rw [hs, hslz, hp]
    exact hslopes.zp (by omega) i j hi hj
  · intro _ i j hi hj
    show AgreeAt firstord (fun c => st₄.scr.slz (c.1, c.2, st₄.kc)) _ i j
    rw [hs, hslz, hc, add_sub_cancel_right]
    exact hslopes.zc i j hi hj
  · intro _ i j hi hj
    show (copyBot b st₄.scr).sbot (i, j) = _
    rw [copyBot_get _ (by omega) (by omega), hb, add_sub_cancel_right]
    exact (hfaces i j hi hj).1
  · intro i j l hi hj hl
    rw [add_sub_cancel_right] at hl
    show st₄.sn (i, j, l) = _
    rcases eq_or_ne l (k - 1) with rfl | hne
    · -- the upper faces of the former plane
      rw [hsnz (by omega), (hz i j (by omega) (by omega)).2 (by omega), (hfaces i j hi hj).2 (by omega),
        hother (i, j, k - 1) (fun h' => by have := h'.2.2.2; simp only at this; omega), h.last i j hi hj (by omega)]
      unfold Input.advected
      rw [sub_add_cancel]
    · rw [hsn (i, j, l) fun h' => by have := h'.2.2.2.2; simp only at this; omega]
      exact h.done i j l hi hj ⟨hl.1, by omega⟩
  · intro i j hi hj hks
    rw [add_sub_cancel_right] at hks ⊢
    show st₄.sn (i, j, k) = _
    rw [hsnz hks.1, (hz i j (by omega) (by omega)).1 hks.2, (hfaces i j hi hj).2 hks.1, hy i j hi hj hks]
    rfl
  · intro c hc
    exact (hsn c fun h' => hc ⟨h'.1, h'.2.1, h'.2.2.1, h'.2.2.2.1⟩).trans (h.rest c hc)
  · intro c hc
    exact (hsn c fun h' => by omega).trans (h.ahead c (by omega))

theorem inv_start (P : Input K) (fstord : ℤ) (b : Extent) (sn₀ : ℤ × ℤ × ℤ → K) (scr : Scratch K) :
    Inv P (decide (fstord = 1)) b sn₀ (b.ks - 1)
      ⟨sn₀, if decide (fstord = 1) then scr else slopez P.s (b.ks - 1) 1 b scr, 3, 1, 2⟩ where
  planes := ⟨(by decide : (3 : ℤ) ≠ 1), (by decide : (1 : ℤ) ≠ 2), (by decide : (3 : ℤ) ≠ 2)⟩
  zc := by
    intro _ i j hi hj hsecond
    rw [hsecond]
    exact slopez_get P.s (b.ks - 1) 1 b scr hi hj
  zm := fun h => by omega
  bot := fun h => by omega
  done := fun i j l _ _ hl => by omega
  last := fun i j _ _ h => by omega
  rest := fun _ _ => rfl
  ahead := fun _ _ => rfl

end Run

/-- The state after the loop over the planes. -/
theorem advect_inv (P : Input K) (fstord : ℤ) (b : Extent) (hk : b.ks ≤ b.ke) (sn : ℤ × ℤ × ℤ → K) (scr : Scratch K) :
    Inv P (decide (fstord = 1)) b sn (b.ke + 2) (advect P fstord b sn scr) := by
  -- the planes next to the box are traced as well, so there are two rounds more than planes in it
  have hrun : ∀ n : ℕ, (n : ℤ) ≤ b.ke + 3 - b.ks → Inv P (decide (fstord = 1)) b sn (b.ks - 1 + n)
      ((upto (b.ks - 1) (b.ks - 1 + n)).foldl (planeStep P (decide (fstord = 1)) b)
        ⟨sn, if decide (fstord = 1) then scr else slopez P.s (b.ks - 1) 1 b scr, 3, 1, 2⟩) := by
    intro n hn
    induction n with
    | zero =>
      rw [Nat.cast_zero, add_zero, upto_eq_nil le_rfl]
      exact inv_start P fstord b sn scr
    | succ n ih =>
      rw [Nat.cast_succ, ← add_assoc, upto_concat (by omega), List.foldl_append, List.foldl_cons, List.foldl_nil]
      exact (ih (by omega)).step hk (by omega)
  have hend := hrun (b.ke + 3 - b.ks).toNat (by omega)
  rw [Int.toNat_of_nonneg (by omega), show b.ks - 1 + (b.ke + 3 - b.ks) = b.ke + 2 by ring] at hend
  exact hend

theorem advect_get (P : Input K) (fstord : ℤ) {b : Extent} (sn : ℤ × ℤ × ℤ → K) (scr : Scratch K) {i j k : ℤ}
    (hi : b.is ≤ i ∧ i ≤ b.ie) (hj : b.js ≤ j ∧ j ≤ b.je) (hk : b.ks ≤ k ∧ k ≤ b.ke) :
    (advect P fstord b sn scr).sn (i, j, k) = P.advected (decide (fstord = 1)) i j k :=
  (advect_inv P fstord b (by omega) sn scr).done i j k hi hj ⟨hk.1, by omega⟩

/-- The new value of each cell of the box is the old one with the fluxes through its six faces, whatever the scratch arrays
hold at the call; all other entries of `sn` stay. -/
theorem advect_sn (P : Input K) (fstord : ℤ) (b : Extent) (hk : b.ks ≤ b.ke) (sn : ℤ × ℤ × ℤ → K) (scr : Scratch K)
    (c : ℤ × ℤ × ℤ) : (advect P fstord b sn scr).sn c =
      if (b.is ≤ c.1 ∧ c.1 ≤ b.ie) ∧ (b.js ≤ c.2.1 ∧ c.2.1 ≤ b.je) ∧ b.ks ≤ c.2.2 ∧ c.2.2 ≤ b.ke then
        P.advected (decide (fstord = 1)) c.1 c.2.1 c.2.2
      else sn c := by
  split_ifs with hc
  · exact advect_get P fstord sn scr hc.1 hc.2.1 hc.2.2
  · exact (advect_inv P fstord b hk sn scr).rest c hc

/-- A shear flow of a linear function, over rational numbers. -/
def shear : Input ℚ where
  s c := c.1 + 2 * c.2.1
  uedge c := c.2.1
  vedge _ := 1
  wedge _ := 0
  phi _ := 1 / 2
  dx := 1
  dy := 1
  dz := 1
  dt := 1 / 10

def shearBox : Extent := ⟨0, 2, 0, 2, 0, 1⟩

def zeroScratch : Scratch ℚ where
  slx _ := 0
  sly _ := 0
  slz _ := 0
  sbot _ := 0
  sTop _ := 0
  sbotp _ := 0
  sfrt _ := 0
  sbck _ := 0
  sleft _ := 0
  sright _ := 0
  sfluxz _ := 0
  dxscr _ := (⟨0, 0, 0⟩, 0)
  dyscr _ := (⟨0, 0, 0⟩, 0)
  dzscr _ := ⟨0, 0, 0⟩
  dzfrm _ := 0

theorem shear_advect_sn : shearBox.ks ≤ shearBox.ke ∧ ∀ c, (advect shear 0 shearBox (fun _ => 0) zeroScratch).sn c =
    if (shearBox.is ≤ c.1 ∧ c.1 ≤ shearBox.ie) ∧ (shearBox.js ≤ c.2.1 ∧ c.2.1 ≤ shearBox.je) ∧ shearBox.ks ≤ c.2.2 ∧
        c.2.2 ≤ shearBox.ke then
      shear.advected (decide ((0 : ℤ) = 1)) c.1 c.2.1 c.2.2
    else 0 :=
  ⟨by decide, fun c => advect_sn shear 0 shearBox (by decide) (fun _ => 0) zeroScratch c⟩

end ParFlow.Advect
