import Mathlib.Algebra.Order.Floor.Ring
import ParFlow.Lib.IntLoop
import ParFlow.Lib.Numerals

/-! The curves of saturation and of relative permeability (`problem_saturation.c`, `problem_phase_rel_perm.c`) with the
lookup tables, in exact arithmetic. A power with a whole exponent is written as one, the others use `pow`. -/

namespace ParFlow.Curves

open IntLoop
open scoped Numerals

variable {K : Type} [Field K] [LinearOrder K]

/-- `CALCFCN` or `CALCDER`. -/
inductive Fcn
  | calcFcn
  | calcDer
  deriving DecidableEq

section Curves

variable (pow : K → K → K)

def vanGRelPerm (fcn : Fcn) (alpha n head : K) : K :=
  let m := 1 - 1 / n
  let opahn := 1 + pow (alpha * head) n
  let ahnm1 := pow (alpha * head) (n - 1)
  match fcn with
  | .calcFcn => (1 - ahnm1 / pow opahn m) ^ 2 / pow opahn (m / 2)
  | .calcDer =>
    let coeff := 1 - ahnm1 * pow opahn (-m)
    2 * (coeff / pow opahn (m / 2)) * ((n - 1) * pow (alpha * head) (n - 2) * alpha * pow opahn (-m) -
        ahnm1 * m * pow opahn (-(m + 1)) * n * alpha * ahnm1) +
      coeff ^ 2 * (m / 2) * pow opahn (-(m + 2) / 2) * n * alpha * ahnm1

def haverkampRelPerm (fcn : Fcn) (A gamma head : K) : K :=
  match fcn with
  | .calcFcn =>
    let tmp := A + pow head gamma
    A / tmp
  | .calcDer =>
    let tmp := pow head gamma
    A * gamma * pow head (gamma - 1) / tmp ^ 2

def vanGSaturation (fcn : Fcn) (alpha n sRes sDif head : K) : K :=
  let m := 1 - 1 / n
  match fcn with
  | .calcFcn => sDif / pow (1 + pow (alpha * head) n) m + sRes
  | .calcDer => m * n * alpha * pow (alpha * head) (n - 1) * sDif / pow (1 + pow (alpha * head) n) (m + 1)

def haverkampSaturation (fcn : Fcn) (alpha beta sRes sDif head : K) : K :=
  match fcn with
  | .calcFcn => alpha * sDif / (alpha + pow head beta) + sRes
  | .calcDer => alpha * sDif * beta * pow head (beta - 1) / (alpha + pow head beta) ^ 2

end Curves

/-- The polynomial of type 4. The loop for the derivative starts with the term `first`. -/
def polynomial (fcn : Fcn) (first degree : ℤ) (coeffs : ℤ → K) (pressure : K) : K :=
  match fcn with
  | .calcFcn =>
    if pressure = 0 then coeffs 0
    else (upto 0 (degree + 1)).foldl (fun sum dg => sum + coeffs dg * pressure ^ dg) 0
  | .calcDer =>
    if pressure = 0 then 0
    else (upto first (degree + 1)).foldl (fun sum dg => sum + coeffs dg * dg * pressure ^ (dg - 1)) 0

/-! ## Lookup tables -/

structure VanGTable (K : Type) where
  minPressureHead : K
  numSamplePoints : ℤ
  x : ℤ → K
  a : ℤ → K
  d : ℤ → K
  aDer : ℤ → K
  dDer : ℤ → K
  slope : ℤ → K
  slopeDer : ℤ → K
  interpolationMethod : ℤ
  interval : K

/-- A loop over the entries of an allocated array. -/
def fill (lo hi : ℤ) (val : ℤ → K) (d : ℤ → K) : ℤ → K :=
  (upto lo hi).foldl (fun d index => Function.update d index (val index)) d

/-- The body of the loop that limits the slopes of the spline. -/
def limitStep (del : ℤ → K) (d : ℤ → K) (index : ℤ) : ℤ → K :=
  if del index = 0 then Function.update (Function.update d index 0) (index + 1) 0
  else
    let alph := d index / del index
    let beta := d (index + 1) / del index
    let magn := alph ^ 2 + beta ^ 2
    if 9 < magn then
      Function.update (Function.update d index (3 * alph * del index / magn)) (index + 1) (3 * beta * del index / magn)
    else d

/-- The slopes of the spline through the points `x` and `a`. The loops handle `a` and `a_der` side by side. -/
def splineSlopes (n : ℤ) (x a : ℤ → K) : ℤ → K :=
  let del := fill 0 n (fun index => (a (index + 1) - a index) / (x (index + 1) - x index)) fun _ => 0
  let d := Function.update (Function.update (fun _ => 0) 0 (del 0)) n (del (n - 1))
  let d := fill 1 n (fun index => (del (index - 1) + del index) / 2) d
  (upto 0 n).foldl (limitStep del) d

def vanGComputeTable (pow : K → K → K) (interpolationMethod numSamplePoints : ℤ) (minPressureHead alpha n : K) :
    VanGTable K :=
  let interval := minPressureHead / ((numSamplePoints - 1 : ℤ) : K)
  let sample := fun val => fill 0 (numSamplePoints + 1) val fun _ => 0
  let x := sample fun index => |index * interval|
  let a := sample fun index => vanGRelPerm pow .calcFcn alpha n (x index)
  let aDer := sample fun index => if n < 2 ∧ index = 0 then 0 else vanGRelPerm pow .calcDer alpha n (x index)
  { minPressureHead, numSamplePoints, x, a, aDer, interpolationMethod
    interval := |interval|
    d := splineSlopes numSamplePoints x a
    dDer := splineSlopes numSamplePoints x aDer
    slope :=
      if interpolationMethod = 1 then fill 0 numSamplePoints (fun index => (a (index + 1) - a index) / |interval|) fun _ => 0
      else fun _ => 0
    slopeDer :=
      if interpolationMethod = 1 then
        fill 0 numSamplePoints (fun index => (aDer (index + 1) - aDer index) / |interval|) fun _ => 0
      else fun _ => 0 }

/-- The cubic of `VanGLookupSpline` with the points `x`, the values `a` and the slopes `d`. -/
def splineAt (x a d : ℤ → K) (pt : ℤ) (pressureHead : K) : K :=
  let t := (pressureHead - x pt) / (x (pt + 1) - x pt)
  (2 * t ^ 3 - 3 * t ^ 2 + 1) * a pt + (t ^ 3 - 2 * t ^ 2 + t) * (x (pt + 1) - x pt) * d pt +
    (-2 * t ^ 3 + 3 * t ^ 2) * a (pt + 1) + (t ^ 3 - t ^ 2) * (x (pt + 1) - x pt) * d (pt + 1)

section Lookup

variable [FloorRing K]

def vanGLookupSpline (pressureHead : K) (table : VanGTable K) (fcn : Fcn) : K :=
  let max := table.numSamplePoints + 1
  if |table.minPressureHead| ≤ pressureHead then 0
  else
    let pt := ⌊pressureHead / table.interval⌋
    let pt := if max < pt then max - 1 else pt
    match fcn with
    | .calcFcn => splineAt table.x table.a table.d pt pressureHead
    | .calcDer => splineAt table.x table.aDer table.dDer pt pressureHead

def vanGLookupLinear (pressureHead : K) (table : VanGTable K) (fcn : Fcn) : K :=
  if pressureHead < |table.minPressureHead| then
    let pt := ⌊pressureHead / table.interval⌋
    match fcn with
    | .calcFcn => table.a pt + table.slope pt * (pressureHead - table.x pt)
    | .calcDer => table.aDer pt + table.slopeDer pt * (pressureHead - table.x pt)
  else 0

/-! ## The values of a cell -/

/-- The input types of the relative permeability with their data in one region. -/
inductive RelPerm (K : Type)
  | constant (value : K)
  | vanGenuchten (alpha n : K) (lookupTable : Option (VanGTable K))
  | haverkamp (A gamma : K)
  | polynomial (degree : ℤ) (coeffs : ℤ → K)

/-- The data of type 1, with a table if there are sample points. -/
def RelPerm.vanGenuchtenNew (pow : K → K → K) (alpha n : K) (numSamplePoints : ℤ) (minPressureHead : K)
    (interpolationMethod : ℤ) : RelPerm K :=
  .vanGenuchten alpha n
    (if numSamplePoints ≠ 0 then
      some (vanGComputeTable pow interpolationMethod numSamplePoints minPressureHead alpha n)
    else none)

/-- A curve below pressure zero, as a function of the pressure head. -/
def belowZero (saturated : K) (curve : K → K) (pressure density gravity : K) : K :=
  if 0 ≤ pressure then saturated else curve (|pressure| / (density * gravity))

/-- The value of `PhaseRelPerm` in a cell of a region. -/
def phaseRelPerm (pow : K → K → K) (region : RelPerm K) (fcn : Fcn) (pressure density gravity : K) : K :=
  let saturated := match fcn with
    | .calcFcn => 1
    | .calcDer => 0
  match region with
  | .constant value =>
    match fcn with
    | .calcFcn => value
    | .calcDer => 0
  | .vanGenuchten _ _ (some table) =>
    if table.interpolationMethod = 0 then
      belowZero saturated (fun head => vanGLookupSpline head table fcn) pressure density gravity
    else if table.interpolationMethod = 1 then
      belowZero saturated (fun head => vanGLookupLinear head table fcn) pressure density gravity
    else 0
  | .vanGenuchten alpha n none => belowZero saturated (vanGRelPerm pow fcn alpha n) pressure density gravity
  | .haverkamp A gamma => belowZero saturated (haverkampRelPerm pow fcn A gamma) pressure density gravity
  | .polynomial degree coeffs => Curves.polynomial fcn 1 degree coeffs pressure

end Lookup

/-- The input types of the saturation with their data in one cell. -/
inductive Saturation (K : Type)
  | constant (value : K)
  | vanGenuchten (alpha n sRes sDif : K)
  | haverkamp (alpha beta sRes sDif : K)
  | polynomial (degree : ℤ) (coeffs : ℤ → K)
  | pfbFile (value : K)

/-- The value of `Saturation` in a cell. -/
def saturation (pow : K → K → K) (cell : Saturation K) (fcn : Fcn) (pressure density gravity : K) : K :=
  match cell, fcn with
  | .constant value, .calcFcn | .pfbFile value, .calcFcn => value
  | .constant _, .calcDer | .pfbFile _, .calcDer => 0
  | .vanGenuchten alpha n sRes sDif, .calcFcn =>
    belowZero (sDif + sRes) (vanGSaturation pow .calcFcn alpha n sRes sDif) pressure density gravity
  | .vanGenuchten alpha n sRes sDif, .calcDer =>
    belowZero 0 (vanGSaturation pow .calcDer alpha n sRes sDif) pressure density gravity
  | .haverkamp alpha beta sRes sDif, .calcFcn =>
    belowZero (sDif + sRes) (haverkampSaturation pow .calcFcn alpha beta sRes sDif) pressure density gravity
  | .haverkamp alpha beta sRes sDif, .calcDer =>
    belowZero 0 (haverkampSaturation pow .calcDer alpha beta sRes sDif) pressure density gravity
  | .polynomial degree coeffs, fcn => Curves.polynomial fcn 0 degree coeffs pressure

end ParFlow.Curves
