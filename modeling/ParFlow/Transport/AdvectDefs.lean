import ParFlow.Lib.IntLoop
import ParFlow.Lib.Numerals
import Mathlib.Algebra.Order.Field.Basic

/-! The Godunov advection routine `advect` with `slopexy` and `slopez` (`advect.F`), in exact arithmetic. An array is a
function of its indices; the scratch arrays have any contents when the routine is called. -/

namespace ParFlow.Advect

open IntLoop
open scoped Numerals

variable {K : Type} [Field K] [LinearOrder K]

/-! ## Slopes -/

/-- The columns `cen`, `lim` and `flag` of a scratch array. -/
structure SlopeScratch (K : Type) where
  cen : K
  lim : K
  flag : K

def dsign (a b : K) : K := if 0 ≤ b then |a| else -|a|

def half : K := 1 / 2

/-- The decimal constants `0.166666666666667d0` and `0.666666666666667d0`. -/
def sixth : K := 166666666666667 / 10 ^ 15

def two3rd : K := 666666666666667 / 10 ^ 15

/-- The columns for a value between its two neighbours. -/
def centred (lo mid hi : K) : SlopeScratch K :=
  let cen := half * (hi - lo)
  let dmin := 2 * (mid - lo)
  let dpls := 2 * (hi - mid)
  let lim := min |dmin| |dpls|
  let lim := if dpls * dmin < 0 then 0 else lim
  ⟨cen, lim, dsign 1 cen⟩

def fromm (c : SlopeScratch K) : K := c.flag * min c.lim |c.cen|

def limited (c : SlopeScratch K) (frommHi frommLo : K) : K :=
  let ds := 2 * two3rd * c.cen - sixth * (frommHi + frommLo)
  c.flag * min |ds| c.lim

/-- The loops of `slopexy` in one direction: on each line the scratch columns with `fromm`, then the slopes, where `at'` is
the point of a line. -/
def slopeLines (s : ℤ × ℤ → K) (at' : ℤ → ℤ → ℤ × ℤ) (lines : List ℤ) (lo hi : ℤ) (sl : ℤ × ℤ → K)
    (scr : ℤ → SlopeScratch K × K) : (ℤ × ℤ → K) × (ℤ → SlopeScratch K × K) :=
  lines.foldl (fun st l =>
    let scr := (upto (lo - 2) (hi + 3)).foldl (fun scr i =>
      let c := centred (s (at' l (i - 1))) (s (at' l i)) (s (at' l (i + 1)))
      Function.update scr i (c, fromm c)) st.2
    ((upto (lo - 1) (hi + 2)).foldl (fun sl i =>
      Function.update sl (at' l i) (limited (scr i).1 (scr (i + 1)).2 (scr (i - 1)).2)) st.1, scr)) (sl, scr)

/-- The arrays of a call. The third index of `slz` is one of its three planes, the second one of `dzfrm` is 1 for
`k - 1`. -/
structure Scratch (K : Type) where
  slx : ℤ × ℤ → K
  sly : ℤ × ℤ → K
  slz : ℤ × ℤ × ℤ → K
  sbot : ℤ × ℤ → K
  sTop : ℤ × ℤ → K
  sbotp : ℤ × ℤ → K
  sfrt : ℤ × ℤ → K
  sbck : ℤ × ℤ → K
  sleft : ℤ → K
  sright : ℤ → K
  sfluxz : ℤ → K
  dxscr : ℤ → SlopeScratch K × K
  dyscr : ℤ → SlopeScratch K × K
  dzscr : ℤ → SlopeScratch K
  dzfrm : ℤ × ℤ → K

/-- The box of the cells that are computed. -/
structure Extent where
  is : ℤ
  ie : ℤ
  js : ℤ
  je : ℤ
  ks : ℤ
  ke : ℤ

/-- The loop in x is the one over the rows, that in y the one over the columns. -/
def slopexy (s : ℤ × ℤ × ℤ → K) (k : ℤ) (b : Extent) (st : Scratch K) : Scratch K :=
  let x := slopeLines (fun c => s (c.1, c.2, k)) (fun j i => (i, j)) (upto (b.js - 1) (b.je + 2)) b.is b.ie st.slx st.dxscr
  let y := slopeLines (fun c => s (c.1, c.2, k)) (fun i j => (i, j)) (upto (b.is - 1) (b.ie + 2)) b.js b.je st.sly st.dyscr
  { st with slx := x.1, dxscr := x.2, sly := y.1, dyscr := y.2 }

/-- The three rounds for `kt = k - 1`, `k + 1` and `k`. The columns of `dzscr` that are left are those of the last one. -/
def slopezRow (s : ℤ × ℤ × ℤ → K) (k : ℤ) (b : Extent) (j : ℤ) (scr : (ℤ → SlopeScratch K) × (ℤ × ℤ → K)) :
    (ℤ → SlopeScratch K) × (ℤ × ℤ → K) :=
  (upto (b.is - 1) (b.ie + 2)).foldl (fun scr i =>
    let column := fun kt => centred (s (i, j, kt - 1)) (s (i, j, kt)) (s (i, j, kt + 1))
    let dzfrm := Function.update scr.2 (i, 1) (fromm (column (k - 1)))
    let dzfrm := Function.update dzfrm (i, 3) (fromm (column (k + 1)))
    let dzfrm := Function.update dzfrm (i, 2) (fromm (column k))
    (Function.update scr.1 i (column k), dzfrm)) scr

def slopez (s : ℤ × ℤ × ℤ → K) (k kk : ℤ) (b : Extent) (st : Scratch K) : Scratch K :=
  (upto (b.js - 1) (b.je + 2)).foldl (fun st j =>
    let scr := slopezRow s k b j (st.dzscr, st.dzfrm)
    let slz := (upto (b.is - 1) (b.ie + 2)).foldl (fun slz i =>
      Function.update slz (i, j, kk) (limited (scr.1 i) (scr.2 (i, 3)) (scr.2 (i, 1)))) st.slz
    { st with dzscr := scr.1, dzfrm := scr.2, slz := slz }) st

/-! ## Traces -/

/-- The arguments that are only read, with the components of `hx`. -/
structure Input (K : Type) where
  s : ℤ × ℤ × ℤ → K
  uedge : ℤ × ℤ × ℤ → K
  vedge : ℤ × ℤ × ℤ → K
  wedge : ℤ × ℤ × ℤ → K
  phi : ℤ × ℤ × ℤ → K
  dx : K
  dy : K
  dz : K
  dt : K

/-- The upwind value of a face. -/
def upwind (velocity lo hi : K) : K := if 0 ≤ velocity then lo else hi

/-- What a cell writes to `sleft(i+1)`, `sright(i)`, `sbck(i,j+1)`, `sfrt(i,j)`, `sbotp(i,j)` and `s_top(i,j)`. -/
structure Traces (K : Type) where
  left : K
  right : K
  bck : K
  frt : K
  bot : K
  top : K

section

variable (P : Input K)

/-- The body of the loop over the cells of a plane, where `zm`, `zc` and `zp` are the planes `km`, `kc` and `kp` of `slz`. -/
def cellTraces (firstord : Bool) (slx sly zm zc zp : ℤ × ℤ → K) (i j k : ℤ) : Traces K :=
  let dth := half * P.dt
  let dxi := 1 / P.dx
  let dyi := 1 / P.dy
  let dzi := 1 / P.dz
  let phiinv := 1 / P.phi (i, j, k)
  let tloXlo := P.s (i - 1, j, k)
  let tloXhi := P.s (i, j, k)
  let thiXlo := P.s (i, j, k)
  let thiXhi := P.s (i + 1, j, k)
  let tloYlo := P.s (i, j - 1, k)
  let tloYhi := P.s (i, j, k)
  let thiYlo := P.s (i, j, k)
  let thiYhi := P.s (i, j + 1, k)
  let tloZlo := P.s (i, j, k - 1)
  let tloZhi := P.s (i, j, k)
  let thiZlo := P.s (i, j, k)
  let thiZhi := P.s (i, j, k + 1)
  let u := P.uedge (i, j, k)
  let u' := P.uedge (i + 1, j, k)
  let v := P.vedge (i, j, k)
  let v' := P.vedge (i, j + 1, k)
  let w := P.wedge (i, j, k)
  let w' := P.wedge (i, j, k + 1)
  let tloXlo := if firstord then tloXlo else tloXlo + (half - u * dth * dxi / P.phi (i - 1, j, k)) * slx (i - 1, j)
  let tloXhi := if firstord then tloXhi else tloXhi - (half + u * dth * dxi * phiinv) * slx (i, j)
  let thiXlo := if firstord then thiXlo else thiXlo + (half - u' * dth * dxi * phiinv) * slx (i, j)
  let thiXhi := if firstord then thiXhi else thiXhi - (half + u' * dth * dxi / P.phi (i + 1, j, k)) * slx (i + 1, j)
  let tloYlo := if firstord then tloYlo else tloYlo + (half - v * dth * dyi / P.phi (i, j - 1, k)) * sly (i, j - 1)
  let tloYhi := if firstord then tloYhi else tloYhi - (half + v * dth * dyi * phiinv) * sly (i, j)
  let thiYlo := if firstord then thiYlo else thiYlo + (half - v' * dth * dyi * phiinv) * sly (i, j)
  let thiYhi := if firstord then thiYhi else thiYhi - (half + v' * dth * dyi / P.phi (i, j + 1, k)) * sly (i, j + 1)
  let tloZlo := if firstord then tloZlo else tloZlo + (half - w * dth * dzi / P.phi (i, j, k - 1)) * zm (i, j)
  let tloZhi := if firstord then tloZhi else tloZhi - (half + w * dth * dzi * phiinv) * zc (i, j)
  let thiZlo := if firstord then thiZlo else thiZlo + (half - w' * dth * dzi * phiinv) * zc (i, j)
  let thiZhi := if firstord then thiZhi else thiZhi - (half + w' * dth * dzi / P.phi (i, j, k + 1)) * zp (i, j)
  let tloX := upwind u tloXlo tloXhi
  let thiX := upwind u' thiXlo thiXhi
  let tloY := upwind v tloYlo tloYhi
  let thiY := upwind v' thiYlo thiYhi
  let tloZ := upwind w tloZlo tloZhi
  let thiZ := upwind w' thiZlo thiZhi
  let sux := (u' * thiX - u * tloX) * dxi
  let suy := (v' * thiY - v * tloY) * dyi
  let suz := (w' * thiZ - w * tloZ) * dzi
  let cux := P.s (i, j, k) * (u' - u) * dxi
  let cuy := P.s (i, j, k) * (v' - v) * dyi
  let cuz := P.s (i, j, k) * (w' - w) * dzi
  { left := thiXlo - dth * (suy + suz + cux) * phiinv
    right := tloXhi - dth * (suy + suz + cux) * phiinv
    bck := thiYlo - dth * (sux + suz + cuy) * phiinv
    frt := tloYhi - dth * (sux + suz + cuy) * phiinv
    bot := thiZlo - dth * (sux + suy + cuz) * phiinv
    top := tloZhi - dth * (sux + suy + cuz) * phiinv }

/-! ## The new values -/

/-- The array `sn`, the scratch arrays, and the planes of `slz`. -/
structure State (K : Type) where
  sn : ℤ × ℤ × ℤ → K
  scr : Scratch K
  km : ℤ
  kc : ℤ
  kp : ℤ

def writeTraces (t : Traces K) (i j : ℤ) (st : Scratch K) : Scratch K :=
  { st with
    sleft := Function.update st.sleft (i + 1) t.left
    sright := Function.update st.sright i t.right
    sbck := Function.update st.sbck (i, j + 1) t.bck
    sfrt := Function.update st.sfrt (i, j) t.frt
    sbotp := Function.update st.sbotp (i, j) t.bot
    sTop := Function.update st.sTop (i, j) t.top }

/-- The x contribution to a row. -/
def addX (b : Extent) (j k : ℤ) (scr : Scratch K) (sn : ℤ × ℤ × ℤ → K) : ℤ × ℤ × ℤ → K :=
  (upto b.is (b.ie + 1)).foldl (fun sn i =>
    let supwM := upwind (P.uedge (i, j, k)) (scr.sleft i) (scr.sright i)
    let supwP := upwind (P.uedge (i + 1, j, k)) (scr.sleft (i + 1)) (scr.sright (i + 1))
    Function.update sn (i, j, k) (P.s (i, j, k) -
      P.dt * (P.uedge (i + 1, j, k) * supwP - P.uedge (i, j, k) * supwM) / (P.dx * P.phi (i, j, k)))) sn

/-- What the cells of plane `k` write, with the slopes that a state has. -/
def planeTraces (firstord : Bool) (k : ℤ) (st : State K) (i j : ℤ) : Traces K :=
  cellTraces P firstord st.scr.slx st.scr.sly (fun c => st.scr.slz (c.1, c.2, st.km)) (fun c => st.scr.slz (c.1, c.2, st.kc))
    (fun c => st.scr.slz (c.1, c.2, st.kp)) i j k

def traceRow (traces : ℤ → ℤ → Traces K) (b : Extent) (j : ℤ) (scr : Scratch K) : Scratch K :=
  (upto (b.is - 1) (b.ie + 2)).foldl (fun scr i => writeTraces (traces i j) i j scr) scr

/-- The loop over the rows of a plane, which does not write to the slopes. -/
def traceRows (firstord : Bool) (b : Extent) (k : ℤ) (st : State K) : State K :=
  let traces := planeTraces P firstord k st
  (upto (b.js - 1) (b.je + 2)).foldl (fun st j =>
    let scr := traceRow traces b j st.scr
    let sn := if (b.ks ≤ k ∧ k ≤ b.ke) ∧ b.js ≤ j ∧ j ≤ b.je then addX P b j k scr st.sn else st.sn
    { st with scr := scr, sn := sn }) st

/-- The y contributions to a plane. -/
def addY (b : Extent) (k : ℤ) (scr : Scratch K) (sn : ℤ × ℤ × ℤ → K) : ℤ × ℤ × ℤ → K :=
  (upto b.js (b.je + 1)).foldl (fun sn j => (upto b.is (b.ie + 1)).foldl (fun sn i =>
    let supwM := upwind (P.vedge (i, j, k)) (scr.sbck (i, j)) (scr.sfrt (i, j))
    let supwP := upwind (P.vedge (i, j + 1, k)) (scr.sbck (i, j + 1)) (scr.sfrt (i, j + 1))
    Function.update sn (i, j, k) (sn (i, j, k) -
      P.dt * (P.vedge (i, j + 1, k) * supwP - P.vedge (i, j, k) * supwM) / (P.dy * P.phi (i, j, k)))) sn) sn

/-- The flux through the face below a cell. -/
def fluxZ (k : ℤ) (scr : Scratch K) (i j : ℤ) : K :=
  P.wedge (i, j, k) * upwind (P.wedge (i, j, k)) (scr.sbot (i, j)) (scr.sTop (i, j)) * (1 / P.dz)

/-- A row of the z contributions, to the plane above the faces and to the one below them. -/
def addZRow (b : Extent) (k j : ℤ) (sfluxz : ℤ → K) (sn : ℤ × ℤ × ℤ → K) : ℤ × ℤ × ℤ → K :=
  let above := fun (sn : ℤ × ℤ × ℤ → K) i =>
    Function.update sn (i, j, k) (sn (i, j, k) + P.dt * sfluxz i / P.phi (i, j, k))
  let below := fun (sn : ℤ × ℤ × ℤ → K) i =>
    Function.update sn (i, j, k - 1) (sn (i, j, k - 1) - P.dt * sfluxz i / P.phi (i, j, k - 1))
  if k = b.ks then (upto b.is (b.ie + 1)).foldl above sn
  else if k = b.ke + 1 then (upto b.is (b.ie + 1)).foldl below sn
  else (upto b.is (b.ie + 1)).foldl (fun sn i => below (above sn i) i) sn

/-- The z contributions of a plane of faces. The loop does not write to `sbot` and `s_top`. -/
def addZ (b : Extent) (k : ℤ) (st : State K) : State K :=
  let flux := fluxZ P k st.scr
  (upto b.js (b.je + 1)).foldl (fun st j =>
    let sfluxz := (upto b.is (b.ie + 1)).foldl (fun sfluxz i => Function.update sfluxz i (flux i j)) st.scr.sfluxz
    { st with scr := { st.scr with sfluxz := sfluxz }, sn := addZRow P b k j sfluxz st.sn }) st

def copyBot (b : Extent) (scr : Scratch K) : Scratch K :=
  { scr with
    sbot := (upto b.js (b.je + 1)).foldl (fun sbot j => (upto b.is (b.ie + 1)).foldl (fun sbot i =>
      Function.update sbot (i, j) (scr.sbotp (i, j))) sbot) scr.sbot }

/-- The slopes for a plane. -/
def withSlopes (firstord : Bool) (b : Extent) (k : ℤ) (st : State K) : State K :=
  { st with
    scr :=
      if firstord then st.scr
      else
        let scr := slopexy P.s k b st.scr
        if k ≤ b.ke then slopez P.s (k + 1) st.kp b scr else scr }

/-- The body of the loop over the planes. -/
def planeStep (firstord : Bool) (b : Extent) (st : State K) (k : ℤ) : State K :=
  let st := traceRows P firstord b k (withSlopes P firstord b k st)
  let st := if b.ks ≤ k ∧ k ≤ b.ke then { st with sn := addY P b k st.scr st.sn } else st
  let st := if b.ks ≤ k ∧ k ≤ b.ke + 1 then addZ P b k st else st
  ⟨st.sn, copyBot b st.scr, st.kc, st.kp, st.km⟩

def advect (fstord : ℤ) (b : Extent) (sn : ℤ × ℤ × ℤ → K) (scr : Scratch K) : State K :=
  let firstord := decide (fstord = 1)
  let scr := if firstord then scr else slopez P.s (b.ks - 1) 1 b scr
  (upto (b.ks - 1) (b.ke + 2)).foldl (planeStep P firstord b) ⟨sn, scr, 3, 1, 2⟩

end

end ParFlow.Advect
