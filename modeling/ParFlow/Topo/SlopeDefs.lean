import ParFlow.Topo.GridCells
import ParFlow.Lib.ExceptLoop

/-! Slopes of an elevation grid (`toposlopes.c`): upwind slopes and D4 slopes, in both directions. Elevations are
elements of an ordered field; what is printed is left out. -/

namespace ParFlow.Topo

open ParFlow.Pfb (Databox)

variable {K : Type} [Field K] [LinearOrder K]

/-- The slope to `[i,j]` from its neighbour `[ii,jj]` at the distance `h`; a neighbour without data lies at 0. -/
def slopeFrom (dem : Databox K) (i j ii jj : ℤ) (h : K) : K :=
  if coeffAt dem ii jj = nodata then (coeffAt dem i j - 0) / h else (coeffAt dem i j - coeffAt dem ii jj) / h

/-- The slope from `[i,j]` to its neighbour `[ii,jj]`. -/
def slopeTo (dem : Databox K) (i j ii jj : ℤ) (h : K) : K :=
  if coeffAt dem ii jj = nodata then (0 - coeffAt dem i j) / h else (coeffAt dem ii jj - coeffAt dem i j) / h

def steeper (s1 s2 : K) : K := if |s1| > |s2| then s1 else s2

/-- A new databox on the grid of another one. -/
def newDataboxLike (dem : Databox K) : Databox K := newDatabox dem.nx dem.ny dem.nz dem.x dem.y dem.z dem.dx dem.dy dem.dz

/-! ## Upwind slopes -/

/-- The slope of a cell with a neighbour on either side. -/
def upwindSlope (s1 s2 : K) : K :=
  if s1 ≥ 0 ∧ s2 ≤ 0 then steeper s1 s2 -- local maximum
  else if s1 < 0 ∧ s2 > 0 then 0 -- local minimum
  else if s1 < 0 ∧ s2 < 0 then s1 -- pass through from left
  else if s1 > 0 ∧ s2 > 0 then s2 -- pass through from right
  else 0

def slopeXUpwind (dem : Databox K) (dx : K) (i j : ℤ) : K :=
  let west := slopeFrom dem i j (i - 1) j dx
  let east := slopeTo dem i j (i + 1) j dx
  if coeffAt dem i j = nodata then nodata
  else if i = 0 ∧ j = 0 then east
  else if i = dem.nx - 1 ∧ j = 0 then west
  else if i = dem.nx - 1 ∧ j = dem.ny - 1 then west
  else if i = 0 ∧ j = dem.ny - 1 then east
  else if i = dem.nx - 1 then west
  else if i = 0 then east
  else upwindSlope west east

def slopeYUpwind (dem : Databox K) (dy : K) (i j : ℤ) : K :=
  let south := slopeFrom dem i j i (j - 1) dy
  let north := slopeTo dem i j i (j + 1) dy
  if coeffAt dem i j = nodata then nodata
  else if i = 0 ∧ j = 0 then north
  else if i = dem.nx - 1 ∧ j = 0 then north
  else if i = dem.nx - 1 ∧ j = dem.ny - 1 then south
  else if i = 0 ∧ j = dem.ny - 1 then south
  else if j = 0 then north
  else if j = dem.ny - 1 then south
  else upwindSlope south north

def computeSlopeXUpwind (dem : Databox K) (dx : K) (sx : Databox K) : Databox K :=
  setGrid dem.nx dem.ny (slopeXUpwind dem dx) sx

def computeSlopeYUpwind (dem : Databox K) (dy : K) (sy : Databox K) : Databox K :=
  setGrid dem.nx dem.ny (slopeYUpwind dem dy) sy

/-! ## D4 slopes -/

/-- `sx_temp` and `sy_temp`, which `ComputeSlopeXD4` and `ComputeSlopeYD4` compute alike. -/
def slopesD4 (dem : Databox K) (i j : ℤ) : K × K :=
  let west := slopeFrom dem i j (i - 1) j dem.dx
  let east := slopeTo dem i j (i + 1) j dem.dx
  let south := slopeFrom dem i j i (j - 1) dem.dy
  let north := slopeTo dem i j i (j + 1) dem.dy
  if i = 0 ∧ j = 0 then (east, north)
  else if i = dem.nx - 1 ∧ j = 0 then (west, north)
  else if i = dem.nx - 1 ∧ j = dem.ny - 1 then (west, south)
  else if i = 0 ∧ j = dem.ny - 1 then (east, south)
  else if i = dem.nx - 1 then (west, steeper north south)
  else if i = 0 then (east, steeper north south)
  else if j = 0 then (steeper west east, north)
  else if j = dem.ny - 1 then (steeper west east, south)
  else (steeper west east, steeper north south)

def slopeXD4 (dem : Databox K) (i j : ℤ) : K :=
  if coeffAt dem i j = nodata then nodata
  else
    let (sxTemp, syTemp) := slopesD4 dem i j
    if |sxTemp| > |syTemp| then sxTemp else if |sxTemp| < |syTemp| then 0 else sxTemp

def slopeYD4 (dem : Databox K) (i j : ℤ) : K :=
  if coeffAt dem i j = nodata then nodata
  else
    let (sxTemp, syTemp) := slopesD4 dem i j
    if |sxTemp| > |syTemp| then 0 else if |sxTemp| < |syTemp| then syTemp else 0

def computeSlopeXD4 (dem sx : Databox K) : Databox K := setGrid dem.nx dem.ny (slopeXD4 dem) sx

def computeSlopeYD4 (dem sy : Databox K) : Databox K := setGrid dem.nx dem.ny (slopeYD4 dem) sy

end ParFlow.Topo

/-! The D8 scheme (`toposlopes.c`): every cell drains to the lowest cell around it. Slopes, segment lengths and children
of this scheme, and elevations by Flint's law. The square root and the power are functions without further meaning. -/

namespace ParFlow.Topo

open IntLoop FuelRun
open ParFlow.Pfb (Databox)

variable {K : Type} [Field K] [LinearOrder K]

/-! ## The lowest cell around a cell -/

/-- `zmin`, `imin`, `jmin` and `nodata`, the number of cells without data. -/
structure Lowest (K : Type) where
  zmin : K
  imin : ℤ
  jmin : ℤ
  nodata : ℤ
  deriving DecidableEq, Repr

/-- `for (jj = j - 1; jj <= j + 1; jj++) for (ii = i - 1; ii <= i + 1; ii++)`. -/
def around (i j : ℤ) : List (ℤ × ℤ) :=
  (upto (j - 1) (j + 1 + 1)).flatMap fun jj => (upto (i - 1) (i + 1 + 1)).map fun ii => (ii, jj)

def searchStep (dem : Databox K) (s : Lowest K) (d : ℤ × ℤ) : Lowest K :=
  if d.1 < 0 ∨ d.2 < 0 ∨ d.1 > dem.nx - 1 ∨ d.2 > dem.ny - 1 then s
  else
    let s := if coeffAt dem d.1 d.2 = nodata then { s with nodata := s.nodata + 1 } else s
    if coeffAt dem d.1 d.2 < s.zmin then { s with zmin := coeffAt dem d.1 d.2, imin := d.1, jmin := d.2 } else s

/-- The search through some cells, from the value that `zmin` starts with. -/
def findLowest (dem : Databox K) (bound : K) (cells : List (ℤ × ℤ)) : Lowest K :=
  cells.foldl (searchStep dem) ⟨bound, -9999, -9999, 0⟩

/-! ## Slopes and segment lengths -/

/-- `s1`, `s2` and `s3`, the slopes to cells without data next to `[i,j]`, which lie at 0. -/
def coastSlopes (dem : Databox K) (dxy : K) (i j : ℤ) : K × K × K :=
  let fall := |coeffAt dem i j - 0|
  (if coeffAt dem (i - 1) j = nodata ∨ coeffAt dem (i + 1) j = nodata then fall / dem.dx else nodata,
    if coeffAt dem i (j - 1) = nodata ∨ coeffAt dem i (j + 1) = nodata then fall / dem.dy else nodata,
    if coeffAt dem (i - 1) (j - 1) = nodata ∨ coeffAt dem (i - 1) (j + 1) = nodata ∨
      coeffAt dem (i + 1) (j - 1) = nodata ∨ coeffAt dem (i + 1) (j + 1) = nodata then fall / dxy else nodata)

def slopeD8 (dem : Databox K) (dxy : K) (i j : ℤ) : K :=
  let z := coeffAt dem i j
  let lowest := findLowest dem 100000000.0 (around i j)
  let atMin := coeffAt dem lowest.imin lowest.jmin
  if z = nodata then nodata
  else if lowest.nodata = 0 then
    if i = 0 ∧ j = 0 ∧ lowest.zmin = z then |coeffAt dem (i + 1) (j + 1) - z| / dxy
    else if i = dem.nx - 1 ∧ j = 0 ∧ lowest.zmin = z then |coeffAt dem (i - 1) (j + 1) - z| / dxy
    else if i = dem.nx - 1 ∧ j = dem.ny - 1 ∧ lowest.zmin = z then |coeffAt dem (i - 1) (j - 1) - z| / dxy
    else if i = 0 ∧ j = dem.ny - 1 ∧ lowest.zmin = z then |coeffAt dem (i + 1) (j - 1) - z| / dxy
    else if i = 0 ∧ lowest.zmin = z then |coeffAt dem (i + 1) j - z| / dem.dx
    else if i = dem.nx - 1 ∧ lowest.zmin = z then |z - coeffAt dem (i - 1) j| / dem.dx
    else if j = 0 ∧ lowest.zmin = z then |coeffAt dem i (j + 1) - z| / dem.dy
    else if j = dem.ny - 1 ∧ lowest.zmin = z then |z - coeffAt dem i (j - 1)| / dem.dy
    else if lowest.zmin = z then 0
    else if i = lowest.imin then |z - atMin| / dem.dy
    else if j = lowest.jmin then |z - atMin| / dem.dx
    else |z - atMin| / dxy
  else if lowest.nodata = 1 then
    if i = lowest.imin then |z - 0| / dem.dy
    else if j = lowest.jmin then |z - 0| / dem.dx
    else |z - 0| / dxy
  else
    let (s1, s2, s3) := coastSlopes dem dxy i j
    max s1 (max s2 s3)

def segmentD8 (dem : Databox K) (dxy : K) (i j : ℤ) : K :=
  let z := coeffAt dem i j
  let lowest := findLowest dem 100000000000.0 (around i j)
  if z = nodata then nodata
  else if lowest.nodata = 0 then
    if i = 0 ∧ j = 0 ∧ lowest.zmin = z then dxy
    else if i = dem.nx - 1 ∧ j = 0 ∧ lowest.zmin = z then dxy
    else if i = dem.nx - 1 ∧ j = dem.ny - 1 ∧ lowest.zmin = z then dxy
    else if i = 0 ∧ j = dem.ny - 1 ∧ lowest.zmin = z then dxy
    else if i = 0 ∧ lowest.zmin = z then dem.dx
    else if i = dem.nx - 1 ∧ lowest.zmin = z then dem.dx
    else if j = 0 ∧ lowest.zmin = z then dem.dy
    else if j = dem.ny - 1 ∧ lowest.zmin = z then dem.dy
    else if lowest.zmin = z then 0
    else if i = lowest.imin then dem.dy
    else if j = lowest.jmin then dem.dx
    else dxy
  else if lowest.nodata = 1 then
    if i = lowest.imin then dem.dy
    else if j = lowest.jmin then dem.dx
    else dxy
  else
    let (s1, s2, s3) := coastSlopes dem dxy i j
    -- the slope along y does not enter the maximum
    let smax := max s1 (max s1 s3)
    if smax = s1 then dem.dx else if smax = s2 then dem.dy else dxy

def diagonal (sqrt : K → K) (dem : Databox K) : K := sqrt (dem.dx * dem.dx + dem.dy * dem.dy)

def computeSlopeD8 (sqrt : K → K) (dem slope : Databox K) : Databox K :=
  setGrid dem.nx dem.ny (slopeD8 dem (diagonal sqrt dem)) slope

def computeSegmentD8 (sqrt : K → K) (dem ds : Databox K) : Databox K :=
  setGrid dem.nx dem.ny (segmentD8 dem (diagonal sqrt dem)) ds

/-! ## Children and parents -/

/-- The elevation of the cell to which `[i,j]` drains; a local minimum has none. -/
def childD8 (dem : Databox K) (i j : ℤ) : K :=
  let lowest := findLowest dem 100000000000.0 (around i j)
  if lowest.zmin = coeffAt dem i j then nodata else coeffAt dem lowest.imin lowest.jmin

def computeChildD8 (dem child : Databox K) : Databox K := setGrid dem.nx dem.ny (childD8 dem) child

/-- The search for the lowest cell around `[ii,jj]` leaves out `[ii,jj]` itself. -/
def lowestOther (dem : Databox K) (ii jj : ℤ) : Lowest K :=
  findLowest dem 100000000000.0 ((around ii jj).filter fun d => !(d == (ii, jj)))

/-- Whether `[ii,jj]` is the parent of `[i,j]`. -/
def computeTestParentD8 (i j ii jj : ℤ) (dem : Databox K) : ℤ :=
  if coeffAt dem i j = nodata ∨ coeffAt dem ii jj = nodata then 0
  else if |i - ii| > 1 ∨ |j - jj| > 1 then 0
  else if (lowestOther dem ii jj).zmin = nodata then 0
  else if (lowestOther dem ii jj).imin = i ∧ (lowestOther dem ii jj).jmin = j ∧ coeffAt dem i j < coeffAt dem ii jj then 1
  else 0

/-! ## Flint's law -/

/-- `-1111.0`, the elevation of a cell that is not computed yet. -/
def notComputed : K := -1111

/-- What the recursion and its caller share. -/
structure FlintData (K : Type) where
  dem : Databox K
  area : Databox K
  ds : Databox K
  pow : K → K → K
  c : K
  p : K

/-- How much higher than its child a cell lies by Flint's law. -/
def FlintData.increment (P : FlintData K) (i j : ℤ) : K := P.c * P.pow (coeffAt P.area i j) P.p * coeffAt P.ds i j

def computeFlintsLawRec (P : FlintData K) : ℕ → ℤ → ℤ → Databox K → Except Fault (Databox K)
  | 0, _, _, _ => .error .fuel
  | fuel + 1, i, j, demflint =>
    if coeffAt P.dem i j = nodata then .ok (setCoeff demflint i j nodata)
    else if i < 0 ∨ i ≥ demflint.nx ∨ j < 0 ∨ j ≥ demflint.ny then .ok demflint
    else
      (around i j).foldlM (fun demflint' d =>
        let test : ℤ :=
          if coeffAt P.dem d.1 d.2 = nodata then 0
          else if d.1 < 0 ∨ d.2 < 0 ∨ d.1 > demflint.nx - 1 ∨ d.2 > demflint.ny - 1 then 0
          else if d.1 = i ∧ d.2 = j then 0
          else computeTestParentD8 i j d.1 d.2 P.dem
        if test = 1 ∧ coeffAt demflint' d.1 d.2 = notComputed then
          computeFlintsLawRec P fuel d.1 d.2
            (setCoeff demflint' d.1 d.2 (coeffAt demflint' i j + P.increment d.1 d.2))
        else .ok demflint') demflint

/-- One cell of the loop: a local minimum keeps its elevation, and the cells upstream of it follow. -/
def flintsLawCell (P : FlintData K) (child : Databox K) (fuel : ℕ) (demflint : Databox K) (c : ℤ × ℤ) :
    Except Fault (Databox K) :=
  if coeffAt P.dem c.1 c.2 = nodata then .ok (setCoeff demflint c.1 c.2 nodata)
  else if coeffAt child c.1 c.2 = nodata then
    computeFlintsLawRec P fuel c.1 c.2 (setCoeff demflint c.1 c.2 (coeffAt P.dem c.1 c.2))
  else .ok demflint

/-- Areas from numbers of cells. -/
def scaleArea (dem area : Databox K) : Databox K :=
  (gridLoop dem.nx dem.ny).foldl (fun area c => setCoeff area c.1 c.2 (coeffAt area c.1 c.2 * dem.dx * dem.dy)) area

def flintsLawArea (dem : Databox K) (fuel : ℕ) : Except Fault (Databox K) := do
  let sx := computeSlopeXUpwind dem dem.dx (newDataboxLike dem)
  let sy := computeSlopeYUpwind dem dem.dy (newDataboxLike dem)
  let area ← computeUpstreamArea dem sx sy (newDataboxLike dem) fuel
  .ok (scaleArea dem area)

def computeFlintsLaw (sqrt : K → K) (pow : K → K → K) (dem : Databox K) (c p : K) (demflint : Databox K) (fuel : ℕ) :
    Except Fault (Databox K) := do
  let area ← flintsLawArea dem fuel
  let ds := computeSegmentD8 sqrt dem (newDataboxLike dem)
  let child := computeChildD8 dem (newDataboxLike dem)
  let demflint := setGrid dem.nx dem.ny (fun _ _ => notComputed) demflint
  (gridLoop dem.nx dem.ny).foldlM (flintsLawCell ⟨dem, area, ds, pow, c, p⟩ child fuel) demflint

end ParFlow.Topo

/-! Flat regions of an elevation grid and the interpolation across them (`ComputeFlatMap` and `ComputeFillFlats` in
`toposlopes.c`). The recursion takes fuel, and running out of it is an error. -/

namespace ParFlow.Topo

open IntLoop FuelRun
open ParFlow.Pfb (Databox)

variable {K : Type} [Field K] [LinearOrder K]

/-! ## The extent of a region -/

def computeFlatMap (dem : Databox K) : ℕ → ℤ → ℤ → Databox K → Except Fault (Databox K)
  | 0, _, _, _ => .error .fuel
  | fuel + 1, i, j, flatmap =>
    if coeffAt dem i j = nodata then .ok flatmap
    else
      (upto (j - 1) (j + 1 + 1)).foldlM (fun flatmap jj =>
        (upto (i - 1) (i + 1 + 1)).foldlM (fun flatmap ii =>
          if ii = i ∧ jj = j then .ok flatmap
          else if ii ≠ i ∧ jj ≠ j then .ok flatmap
          else if ii < 0 ∨ jj < 0 ∨ ii > dem.nx - 1 ∨ jj > dem.ny - 1 then .ok flatmap
          else if coeffAt dem ii jj = nodata then .ok flatmap
          else if coeffAt dem i j = coeffAt dem ii jj then
            if coeffAt flatmap ii jj ≠ 1 then computeFlatMap dem fuel ii jj (setCoeff flatmap ii jj 1) else .ok flatmap
          else .ok flatmap) flatmap) (setCoeff flatmap i j 1)

/-! ## Interpolation -/

/-- `while (iscan > 0 && flatmap == 1) iscan--`: the final `iscan`. -/
def scanLow (flat : ℤ → Bool) : ℕ → ℤ
  | 0 => 0
  | iscan + 1 => if flat (iscan + 1) then scanLow flat iscan else iscan + 1

/-- `while (iscan < last && flatmap == 1) iscan++`. The recursion is on `last - iscan`. -/
def scanHigh (flat : ℤ → Bool) (last : ℤ) : ℕ → ℤ
  | 0 => last
  | left + 1 => if flat (last - (left + 1)) then scanHigh flat last left else last - (left + 1)

section

variable (dem flatmap : Databox K)

def scanLeft (ii jj : ℤ) : ℤ := scanLow (fun iscan => decide (coeffAt flatmap iscan jj = 1)) ii.toNat

def scanRight (ii jj : ℤ) : ℤ :=
  scanHigh (fun iscan => decide (coeffAt flatmap iscan jj = 1)) (dem.nx - 1) (dem.nx - 1 - ii).toNat

def scanUp (ii jj : ℤ) : ℤ :=
  scanHigh (fun jscan => decide (coeffAt flatmap ii jscan = 1)) (dem.ny - 1) (dem.ny - 1 - jj).toNat

def scanDown (ii jj : ℤ) : ℤ := scanLow (fun jscan => decide (coeffAt flatmap ii jscan = 1)) jj.toNat

end

/-- `fabs((double)ii - (double)iscan)`. -/
def scanDistance (ii iscan : ℤ) : K := |(ii : K) - (iscan : K)|

/-- `wt_sum / sum_wt` for the elevations and the distances of the four ends. -/
def inverseDistance (zleft dleft zright dright zup dup zdown ddown : K) : K :=
  (zleft / dleft + zright / dright + zup / dup + zdown / ddown) / (1 / dleft + 1 / dright + 1 / dup + 1 / ddown)

/-- The elevations, and the distances that have been divided by. -/
structure FillState (K : Type) where
  newdem : Databox K
  flatmap : Databox K
  distances : List K

/-- The cell `[ii,jj]` of the loop that interpolates. -/
def interpolateCell (dem : Databox K) (s : FillState K) (d : ℤ × ℤ) : FillState K :=
  let (ii, jj) := d
  if ii = 0 ∨ ii = dem.nx - 1 ∨ jj = 0 ∨ jj = dem.ny - 1 then s
  else if coeffAt s.flatmap ii jj = 1 then
    let left := scanLeft s.flatmap ii jj
    let right := scanRight dem s.flatmap ii jj
    let up := scanUp dem s.flatmap ii jj
    let down := scanDown s.flatmap ii jj
    let dleft := scanDistance ii left
    let dright := scanDistance ii right
    let dup := scanDistance jj up
    let ddown := scanDistance jj down
    let average := inverseDistance (coeffAt s.newdem left jj) dleft (coeffAt s.newdem right jj) dright
      (coeffAt s.newdem ii up) dup (coeffAt s.newdem ii down) ddown
    { s with
      newdem := setCoeff s.newdem ii jj ((coeffAt s.newdem ii jj + average) / 2.0)
      distances := s.distances ++ [dleft, dright, dup, ddown] }
  else s

/-! ## The routine -/

/-- `flat` -/
def testFlat (dem newdem : Databox K) (i j : ℤ) : ℤ :=
  (upto (j - 1) (j + 1 + 1)).foldl (fun flat jj =>
    (upto (i - 1) (i + 1 + 1)).foldl (fun flat ii =>
      if |i - ii| + |j - jj| = 1 then
        if ii < 0 ∨ jj < 0 ∨ ii ≥ dem.nx ∨ jj ≥ dem.ny then flat
        else if coeffAt newdem i j ≠ coeffAt newdem ii jj then 0
        else flat
      else flat) flat) 1

/-- The cell `[i,j]` of the loop over the grid. -/
def fillFlatCell (dem : Databox K) (fuel : ℕ) (s : FillState K) (c : ℤ × ℤ) : Except Fault (FillState K) :=
  if coeffAt s.newdem c.1 c.2 = nodata then .ok s
  else if testFlat dem s.newdem c.1 c.2 = 1 then do
    let flatmap := setGrid dem.nx dem.ny (fun _ _ => 0) s.flatmap
    let flatmap ← computeFlatMap s.newdem fuel c.1 c.2 flatmap
    .ok ((gridLoop dem.nx dem.ny).foldl (interpolateCell dem) { s with flatmap := flatmap })
  else .ok s

/-- Some rounds of the loop over the grid. -/
def fillFlatsLoop (dem newdem : Databox K) (cells : List (ℤ × ℤ)) (fuel : ℕ) : Except Fault (FillState K) :=
  cells.foldlM (fillFlatCell dem fuel) ⟨setGrid dem.nx dem.ny (coeffAt dem) newdem, newDataboxLike dem, []⟩

/-- The elevations are in `newdem`. -/
def computeFillFlats (dem newdem : Databox K) (fuel : ℕ) : Except Fault (FillState K) :=
  fillFlatsLoop dem newdem (gridLoop dem.nx dem.ny) fuel

end ParFlow.Topo

/-! Sinks of an elevation grid that are filled with the average of a window (`ComputeMovingAvg` in `toposlopes.c`).
Reading an elevation outside the grid is a fault. The window size is a whole number; the square root is a function
without further meaning. -/

namespace ParFlow.Topo

open IntLoop CheckedArray
open ParFlow.Pfb (Databox)

variable {K : Type} [Field K] [LinearOrder K]

def readCell (dem : Databox K) (i j : ℤ) : Except Fault K :=
  if IsCell dem (i, j) then .ok (coeffAt dem i j) else .error .outOfBounds

/-- `lmin`: an interior cell that is lower than its neighbours. -/
def localMin (dem : Databox K) (i j : ℤ) : Except Fault Bool :=
  if i > 0 ∧ j > 0 ∧ i < dem.nx - 1 ∧ j < dem.ny - 1 then do
    let z ← readCell dem i j
    let west ← readCell dem (i - 1) j
    let east ← readCell dem (i + 1) j
    let south ← readCell dem i (j - 1)
    let north ← readCell dem i (j + 1)
    .ok (z < west ∧ z < east ∧ z < south ∧ z < north)
  else .ok false

/-- `(smag == 0.0) || (lmin == 1)`. -/
def testSink (sqrt : K → K) (sx sy dem : Databox K) (i j : ℤ) : Except Fault Bool := do
  let smag := sqrt (coeffAt sx i j * coeffAt sx i j + coeffAt sy i j * coeffAt sy i j)
  let lmin ← localMin dem i j
  .ok (smag = 0 ∨ lmin = true)

/-- `li` or `lj`. -/
def windowLow (i wsize : ℤ) : ℤ := if i ≤ wsize then 0 else i - wsize

/-- `ri` or `rj`: the high side is clipped only where the low side is not. -/
def windowHigh (i wsize nx : ℤ) : ℤ := if i ≤ wsize then i + wsize else if i ≥ nx - wsize then nx - 1 else i + wsize

/-- `for (jj = lj; jj <= rj; jj++) for (ii = li; ii <= ri; ii++)`. -/
def windowLoop (dem : Databox K) (wsize i j : ℤ) : List (ℤ × ℤ) :=
  (upto (windowLow j wsize) (windowHigh j wsize dem.ny + 1)).flatMap fun jj =>
    (upto (windowLow i wsize) (windowHigh i wsize dem.nx + 1)).map fun ii => (ii, jj)

/-- `mavg` and `counter`. -/
def windowSum (dem : Databox K) (wsize i j : ℤ) : Except Fault (K × K) :=
  (windowLoop dem wsize i j).foldlM (fun s d =>
    if d.1 ≠ i ∨ d.2 ≠ j then do
      let z ← readCell dem i j -- not the cell of the window
      .ok (s.1 + z, s.2 + 1)
    else .ok s) (0, 0)

def movingAvgCell (sqrt : K → K) (wsize : ℤ) (sx sy dem : Databox K) (c : ℤ × ℤ) : Except Fault (Databox K) := do
  let z ← readCell dem c.1 c.2
  if z ≠ nodata then do
    let sink ← testSink sqrt sx sy dem c.1 c.2
    if sink then do
      let (mavg, counter) ← windowSum dem wsize c.1 c.2
      .ok (setCoeff dem c.1 c.2 ((mavg + dem.dz / 100.0) / counter))
    else .ok dem
  else .ok dem

def countSink (sqrt : K → K) (sx sy dem : Databox K) (nsink : ℤ) (c : ℤ × ℤ) : Except Fault ℤ := do
  let z ← readCell dem c.1 c.2
  if z ≠ nodata then do
    let sink ← testSink sqrt sx sy dem c.1 c.2
    .ok (if sink then nsink + 1 else nsink)
  else .ok nsink

/-- The slopes that the routine starts with. -/
def startSlopeX (dem : Databox K) : Databox K := computeSlopeXUpwind dem dem.dx (newDataboxLike dem)

def startSlopeY (dem : Databox K) : Databox K := computeSlopeYUpwind dem dem.dy (newDataboxLike dem)

/-- Some rounds of the loop over the grid, with the slopes of `dem`. -/
def movingAvgLoop (sqrt : K → K) (wsize : ℤ) (dem : Databox K) (cells : List (ℤ × ℤ)) : Except Fault (Databox K) :=
  cells.foldlM (movingAvgCell sqrt wsize (startSlopeX dem) (startSlopeY dem)) dem

/-- The number of sinks that remain, and the new elevations. -/
def computeMovingAvg (sqrt : K → K) (wsize : ℤ) (dem : Databox K) : Except Fault (ℤ × Databox K) := do
  let dem' ← movingAvgLoop sqrt wsize dem (gridLoop dem.nx dem.ny)
  let sx := computeSlopeXUpwind dem' dem.dx (startSlopeX dem)
  let sy := computeSlopeYUpwind dem' dem.dy (startSlopeY dem)
  let nsink ← (gridLoop dem.nx dem.ny).foldlM (countSink sqrt sx sy dem') 0
  .ok (nsink, dem')

end ParFlow.Topo
