import ParFlow.Topo.GridCells

/-! Columns of a mask (`top.c`, `toposlopes.c`): the highest and the lowest active cell, and the transmissivity of the
upper layers. -/

namespace ParFlow.Topo

open IntLoop FuelRun
open ParFlow.Pfb (Databox)

section

variable {K : Type}

/-- `*DataboxCoeff(databox, i, j, k)`. -/
def layerAt (d : Databox K) (i j k : ℤ) : K := d.coeffs (d.coeff i j k)

variable [Field K] [LinearOrder K]

/-- The variable `k` after the loop of `ComputeTop`. -/
def topSearch (mask : Databox K) (i j : ℤ) : ℤ :=
  ((upto 0 mask.nz).reverse.find? fun k => layerAt mask i j k > 0).getD (min (mask.nz - 1) (-1))

/-- The variable `k` after the loop of `ComputeBottom`. -/
def bottomSearch (mask : Databox K) (i j : ℤ) : ℤ :=
  ((upto 0 mask.nz).find? fun k => layerAt mask i j k > 0).getD (max 0 mask.nz)

def computeTop (mask top : Databox K) : Databox K :=
  setGrid mask.nx mask.ny (fun i j => if topSearch mask i j ≥ 0 then (topSearch mask i j : K) else -1) top

def computeBottom (mask bottom : Databox K) : Databox K :=
  setGrid mask.nx mask.ny (fun i j => if bottomSearch mask i j ≥ 0 then (bottomSearch mask i j : K) else -1) bottom

/-! ## Transmissivity -/

/-- `while (topflag == 0)`: the final `ktop`. -/
def findTop (mask : Databox K) (i j : ℤ) : ℕ → ℤ → Except Fault ℤ
  | 0, _ => .error .fuel
  | fuel + 1, ktop => if layerAt mask i j ktop = 0 then findTop mask i j fuel (ktop - 1) else .ok ktop

/-- What a layer adds to the transmissivity of its column. -/
def addLayer (mask perm : Databox K) (i j k : ℤ) (trans : Databox K) : Databox K :=
  if layerAt mask i j k = 1 then setCoeff trans i j (coeffAt trans i j + layerAt perm i j k * perm.dz) else trans

/-- `while ((layers < nlayers) && (k >= 0))`. -/
def scanLayers (nlayers : ℤ) (mask perm : Databox K) (i j : ℤ) : ℕ → ℤ → ℤ → Databox K → Except Fault (Databox K)
  | 0, _, _, _ => .error .fuel
  | fuel + 1, layers, k, t =>
    if layers < nlayers ∧ k ≥ 0 then
      scanLayers nlayers mask perm i j fuel (layers + 1) (k - 1) (addLayer mask perm i j k t)
    else .ok t

/-- The column `[i,j]` of the loop of `ComputeSatTransmissivity`. -/
def satColumn (nlayers : ℤ) (mask perm : Databox K) (fuel : ℕ) (trans : Databox K) (c : ℤ × ℤ) :
    Except Fault (Databox K) := do
  let ktop ← findTop mask c.1 c.2 fuel (perm.nz - 1)
  scanLayers nlayers mask perm c.1 c.2 fuel 0 ktop trans

def computeSatTransmissivity (nlayers : ℤ) (mask perm trans : Databox K) (fuel : ℕ) : Except Fault (Databox K) :=
  (gridLoop perm.nx perm.ny).foldlM (satColumn nlayers mask perm fuel) trans

end

end ParFlow.Topo
