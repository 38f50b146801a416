import ParFlow.Lib.Numerals
import ParFlow.Overland.FluxDefs

/-! Diffusive overland flow: `OverlandFlowEvalDiff` (`overlandflow_eval_diffusive.c`), the fluxes through the sides of
the columns and their derivatives. `RPowerR` is a parameter. -/

namespace ParFlow

/-- `CALCFCN` and `CALCDER`. -/
inductive EvalMode where
  | calcFcn | calcDer
  deriving DecidableEq, Repr

/-- The arrays of one direction that a call returns: `ke_v`, `kw_v`, `ke_vns`, `kw_vns` and `qx_v`, or `kn_v`, `ks_v`,
`kn_vns`, `ks_vns` and `qy_v`. -/
structure AxisArrays (K : Type) where
  high : ℤ → K
  low : ℤ → K
  highVns : ℤ → K
  lowVns : ℤ → K
  flux : ℤ → K

/-- The local variables of a loop, which are declared outside it and keep their values from one cell to the next.
The field `pressX` is `Press_x` where values are evaluated and `Pupx` where derivatives are. -/
structure DiffusiveLocals (K : Type) where
  ip : ℤ
  pressX : K
  sfX : K
  sfXo : K
  sfYo : K

structure DiffusiveState (K : Type) where
  locals : DiffusiveLocals K
  x : AxisArrays K
  y : AxisArrays K

/-- What the evaluation reads. -/
structure DiffusiveData (K : Type) where
  slopeX : Subvector K
  slopeY : Subvector K
  mannings : Subvector K
  top : Subvector ℤ
  pressure : Subvector K
  oldPressure : Subvector K
  dx : K
  dy : K
  ovEpsilon : K

namespace DiffusiveData

open scoped Numerals

section Indices

variable {K : Type} (P : DiffusiveData K) (c : ℤ × ℤ)

def io : ℤ := subvectorEltIndex P.slopeX.dataSpace c.1 c.2 0

def itop : ℤ := subvectorEltIndex P.top.dataSpace c.1 c.2 0

def syV : ℤ := P.top.dataSpace.nx

def k1 : ℤ := P.top.data (P.itop c)

def k0x : ℤ := P.top.data (P.itop c - 1)

def k0y : ℤ := P.top.data (P.itop c - P.syV)

def k1x : ℤ := P.top.data (P.itop c + 1)

def k1y : ℤ := P.top.data (P.itop c + P.syV)

def ip : ℤ := subvectorEltIndex P.pressure.dataSpace c.1 c.2 (P.k1 c)

def ipp1 : ℤ := subvectorEltIndex P.pressure.dataSpace (c.1 + 1) c.2 (P.k1x c)

def ippsy : ℤ := subvectorEltIndex P.pressure.dataSpace c.1 (c.2 + 1) (P.k1y c)

end Indices

variable {K : Type} [Field K] [LinearOrder K] (rPow : K → K → K) (P : DiffusiveData K)

/-- `pfmax(pp[ip], 0.0)` -/
def depth (ip : ℤ) : K := pfmax (P.pressure.data ip) 0

/-- `pfmax(opp[ip], 0.0)` -/
def oldDepth (ip : ℤ) : K := pfmax (P.oldPressure.data ip) 0

/-- `Sf_x`, `Sf_y`, `Sf_xo` and `Sf_yo`. -/
def frictionSlope (slope up down d : K) : K := slope + (up - down) / d

/-- `Sf_mag` -/
def sfMag (sfXo sfYo : K) : K :=
  let mag := rPow (sfXo * sfXo + sfYo * sfYo) (1 / 2)
  if mag < P.ovEpsilon then P.ovEpsilon else mag

/-- `RPowerR(fabs(Sf_mag), 0.5) * mann_dat[io]` -/
def resistance (mag mann : K) : K := rPow |mag| (1 / 2) * mann

def diffusiveFlux (sf res press : K) : K := -(sf / res) * rPow press (5 / 3)

/-! ## Values -/

/-- The body for `k1 >= 0`. -/
def fcnUpper (c : ℤ × ℤ) (s : DiffusiveState K) : DiffusiveState K :=
  let io := P.io c
  let ip := P.ip c
  let sfX := frictionSlope (P.slopeX.data io) (P.depth (P.ipp1 c)) (P.depth ip) P.dx
  let sfY := frictionSlope (P.slopeY.data io) (P.depth (P.ippsy c)) (P.depth ip) P.dy
  let sfXo := frictionSlope (P.slopeX.data io) (P.oldDepth (P.ipp1 c)) (P.oldDepth ip) P.dx
  let sfYo := frictionSlope (P.slopeY.data io) (P.oldDepth (P.ippsy c)) (P.oldDepth ip) P.dy
  let res := resistance rPow (P.sfMag rPow sfXo sfYo) (P.mannings.data io)
  let pressX := upstreamMean (-sfX) 0 (P.depth ip) (P.depth (P.ipp1 c))
  let pressY := upstreamMean (-sfY) 0 (P.depth ip) (P.depth (P.ippsy c))
  { locals := ⟨ip, pressX, sfX, sfXo, sfYo⟩
    x := { s.x with flux := Function.update s.x.flux io (diffusiveFlux rPow sfX res pressX) }
    y := { s.y with flux := Function.update s.y.flux io (diffusiveFlux rPow sfY res pressY) } }

/-- The fix for the lower x boundary. -/
def fcnLowerX (c : ℤ × ℤ) (s : DiffusiveState K) : DiffusiveState K :=
  let io := P.io c
  let pressX := P.depth s.locals.ip
  let sfX := frictionSlope (P.slopeX.data io) pressX 0 P.dx
  let sfXo := frictionSlope (P.slopeX.data io) (P.oldDepth s.locals.ip) 0 P.dx
  let res := resistance rPow (P.sfMag rPow sfXo s.locals.sfYo) (P.mannings.data io)
  { s with
    locals := { s.locals with pressX := pressX, sfX := sfX, sfXo := sfXo }
    x := if 0 < sfX then { s.x with flux := Function.update s.x.flux (io - 1) (diffusiveFlux rPow sfX res pressX) }
      else s.x }

/-- The fix for the lower y boundary, which divides by `dx`. It repeats the flux of the lower x boundary with its own
magnitude of the slope. -/
def fcnLowerY (c : ℤ × ℤ) (s : DiffusiveState K) : DiffusiveState K :=
  let io := P.io c
  let pressY := P.depth s.locals.ip
  let sfY := frictionSlope (P.slopeY.data io) pressY 0 P.dx
  let sfYo := frictionSlope (P.slopeY.data io) (P.oldDepth s.locals.ip) 0 P.dx
  let res := resistance rPow (P.sfMag rPow s.locals.sfXo sfYo) (P.mannings.data io)
  { locals := { s.locals with sfYo := sfYo }
    x := if P.k0x c < 0 ∧ 0 < s.locals.sfX then
        { s.x with flux := Function.update s.x.flux (io - 1) (diffusiveFlux rPow s.locals.sfX res s.locals.pressX) }
      else s.x
    y := if 0 < sfY then { s.y with flux := Function.update s.y.flux (io - P.syV) (diffusiveFlux rPow sfY res pressY) }
      else s.y }

/-- The body of the first loop. -/
def fcnCell (s : DiffusiveState K) (c : ℤ × ℤ) : DiffusiveState K :=
  let s := if 0 ≤ P.k1 c then P.fcnUpper rPow c s else s
  let s := if P.k0x c < 0 then P.fcnLowerX rPow c s else s
  if P.k0y c < 0 then P.fcnLowerY rPow c s else s

/-- The body of the second loop. -/
def fcnFaces (s : DiffusiveState K) (c : ℤ × ℤ) : DiffusiveState K :=
  let io := P.io c
  { s with
    x := { s.x with
      high := Function.update s.x.high io (s.x.flux io)
      low := Function.update s.x.low io (s.x.flux (io - 1)) }
    y := { s.y with
      high := Function.update s.y.high io (s.y.flux io)
      low := Function.update s.y.low io (s.y.flux (io - P.syV)) } }

/-! ## Derivatives -/

/-- `ke_v[io]` and `kn_v[io]` -/
def derHigh (slope d sf res up down : K) : K :=
  if sf < 0 then 5 / 3 * (-slope - up / d) / res * rPow down (2 / 3) + 8 / 3 * rPow down (5 / 3) / (res * d)
  else rPow up (5 / 3) / (res * d)

/-- `kw_v[io + 1]` and `ks_v[io + sy_v]` -/
def derLow (slope d sf res up down : K) : K :=
  if sf < 0 then -rPow down (5 / 3) / (res * d)
  else 5 / 3 * (-slope + down / d) / res * rPow up (2 / 3) - 8 / 3 * rPow up (5 / 3) / (res * d)

/-- `kw_v[io]` and `ks_v[io]` on a lower boundary. -/
def derBoundary (slope d res press : K) : K :=
  5 / 3 * (-slope + 0) / res * rPow press (2 / 3) - 8 / 3 * rPow press (5 / 3) / (res * d)

/-- The four assignments of the body for `k1 >= 0` in one direction. -/
def derUpperAxis (io step : ℤ) (high low : K) (a : AxisArrays K) : AxisArrays K :=
  let highs := Function.update a.high io high
  let lows := Function.update a.low (io + step) low
  { a with
    high := highs
    low := lows
    highVns := Function.update a.highVns io (lows (io + step))
    lowVns := Function.update a.lowVns (io + step) (highs io) }

/-- The body for `k1 >= 0`. -/
def derUpper (c : ℤ × ℤ) (s : DiffusiveState K) : DiffusiveState K :=
  let io := P.io c
  let ip := P.ip c
  let pupx := P.depth (P.ipp1 c)
  let pupy := P.depth (P.ippsy c)
  let pdown := P.depth ip
  let sfX := frictionSlope (P.slopeX.data io) pupx pdown P.dx
  let sfY := frictionSlope (P.slopeY.data io) pupy pdown P.dy
  let sfXo := frictionSlope (P.slopeX.data io) (P.oldDepth (P.ipp1 c)) (P.oldDepth ip) P.dx
  let sfYo := frictionSlope (P.slopeY.data io) (P.oldDepth (P.ippsy c)) (P.oldDepth ip) P.dy
  let res := resistance rPow (P.sfMag rPow sfXo sfYo) (P.mannings.data io)
  { locals := ⟨ip, pupx, sfX, sfXo, sfYo⟩
    x := derUpperAxis io 1 (derHigh rPow (P.slopeX.data io) P.dx sfX res pupx pdown)
      (derLow rPow (P.slopeX.data io) P.dx sfX res pupx pdown) s.x
    y := derUpperAxis io P.syV (derHigh rPow (P.slopeY.data io) P.dy sfY res pupy pdown)
      (derLow rPow (P.slopeY.data io) P.dy sfY res pupy pdown) s.y }

/-- The assignments on a lower boundary without inflow. -/
def derNoFlow (io step : ℤ) (a : AxisArrays K) : AxisArrays K :=
  { a with
    high := Function.update a.high (io - step) 0
    low := Function.update a.low io 0
    lowVns := Function.update a.lowVns io 0
    highVns := Function.update a.highVns (io - step) 0 }

/-- The assignments on the lower x boundary with flow. -/
def derFlowX (io : ℤ) (high low : K) (a : AxisArrays K) : AxisArrays K :=
  let highs := Function.update a.high (io - 1) high
  let lows := Function.update a.low io low
  { a with
    high := highs
    low := lows
    highVns := Function.update a.highVns (io - 1) (lows io)
    lowVns := Function.update a.lowVns io (highs (io - 1)) }

/-- The assignments on the lower y boundary with flow. The first one goes to `kn_vns` in the place of `kn_v`. -/
def derFlowY (io syV : ℤ) (high low : K) (a : AxisArrays K) : AxisArrays K :=
  let highsVns := Function.update a.highVns (io - syV) high
  let lows := Function.update a.low io low
  { a with
    low := lows
    highVns := Function.update highsVns (io - syV) (lows io)
    lowVns := Function.update a.lowVns io (a.high (io - syV)) }

/-- The fix for the lower x boundary. -/
def derLowerX (c : ℤ × ℤ) (s : DiffusiveState K) : DiffusiveState K :=
  let io := P.io c
  let pupx := P.depth s.locals.ip
  let sfX := frictionSlope (P.slopeX.data io) pupx 0 P.dx
  let sfXo := frictionSlope (P.slopeX.data io) (P.oldDepth s.locals.ip) 0 P.dx
  let res := resistance rPow (P.sfMag rPow sfXo s.locals.sfYo) (P.mannings.data io)
  { s with
    locals := { s.locals with pressX := pupx, sfX := sfX, sfXo := sfXo }
    x := if sfX < 0 then derNoFlow io 1 s.x
      else derFlowX io (rPow pupx (5 / 3) / (res * P.dx)) (derBoundary rPow (P.slopeX.data io) P.dx res pupx) s.x }

/-- The fix for the lower y boundary. In a corner without flow in x it clears the arrays of y. -/
def derLowerY (c : ℤ × ℤ) (s : DiffusiveState K) : DiffusiveState K :=
  let io := P.io c
  let pupy := P.depth s.locals.ip
  let sfY := frictionSlope (P.slopeY.data io) pupy 0 P.dy
  let sfYo := frictionSlope (P.slopeY.data io) (P.oldDepth s.locals.ip) 0 P.dy
  let res := resistance rPow (P.sfMag rPow s.locals.sfXo sfYo) (P.mannings.data io)
  let y := if sfY < 0 then derNoFlow io P.syV s.y
    else derFlowY io P.syV (rPow pupy (5 / 3) / (res * P.dy)) (derBoundary rPow (P.slopeY.data io) P.dy res pupy) s.y
  { locals := { s.locals with sfYo := sfYo }
    x := if P.k0x c < 0 ∧ 0 ≤ s.locals.sfX then
        derFlowX io (rPow s.locals.pressX (5 / 3) / (res * P.dx))
          (derBoundary rPow (P.slopeX.data io) P.dx res s.locals.pressX) s.x
      else s.x
    y := if P.k0x c < 0 ∧ s.locals.sfX < 0 then derNoFlow io P.syV y else y }

/-- The body of the loop over the columns without ghosts. -/
def derCell (s : DiffusiveState K) (c : ℤ × ℤ) : DiffusiveState K :=
  let s := if 0 ≤ P.k1 c then P.derUpper rPow c s else s
  let s := if P.k0x c < 0 then P.derLowerX rPow c s else s
  if P.k0y c < 0 then P.derLowerY rPow c s else s

/-- `OverlandFlowEvalDiff`. The loop with ghosts visits `ghostColumns`, the others visit `columns`. -/
def overlandFlowEvalDiff (fcn : EvalMode) (ghostColumns columns : List (ℤ × ℤ)) (s : DiffusiveState K) :
    DiffusiveState K :=
  match fcn with
  | .calcFcn => columns.foldl P.fcnFaces (ghostColumns.foldl (P.fcnCell rPow) s)
  | .calcDer => columns.foldl (P.derCell rPow) s

end DiffusiveData

end ParFlow
