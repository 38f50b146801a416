import Mathlib.Logic.Function.Basic
import Mathlib.Data.Nat.NthRoot.Defs
import ParFlow.Lib.Sorting
import ParFlow.Grid.SubgridDefs

/-! `UnionSubgridArray` (`grid.c`): the corner indices of the boxes are sorted per
axis, the blocks between them are marked in a table, and runs of equal blocks
are joined in x, then y, then z. A block holds `0` or the sum of its extents
times the factors of the axes. -/

namespace ParFlow

namespace Union

/-! ## Levels -/

/-- Insert a level into the increasing array, behind the levels that are not above it. -/
def insertLevel (level : ℤ) : List ℤ → List ℤ
  | [] => [level]
  | l :: ls => if level < l then level :: l :: ls else l :: insertLevel level ls

def addLevel (levels : List ℤ) (level : ℤ) : List ℤ :=
  if level ∈ levels then levels else insertLevel level levels

def levelArray (subgrids : SubgridArray) : List ℤ :=
  subgrids.foldl (fun levels s => addLevel levels s.level) []

/-! ## Block indices -/

def addIndex (index : List ℤ) (i : ℤ) : List ℤ := if i ∈ index then index else index ++ [i]

/-- Both ends of every box along an axis, each index once, in order of appearance. -/
def collectIndex (a : Axis) (sa : SubgridArray) : List ℤ :=
  sa.foldl (fun index s => addIndex (addIndex index (s.lo a)) (s.lo a + s.num a)) []

def blockIndex (sa : SubgridArray) (a : Axis) : List ℤ :=
  BubbleSort.bubbleSort ((collectIndex a sa).length - 1) (collectIndex a sa)

/-- The number of blocks along an axis, one less than the number of indices. -/
def blockSz (sa : SubgridArray) (a : Axis) : ℕ := (collectIndex a sa).length - 1

def factor (n : Axis → ℕ) : Axis → ℕ
  | .x => 1
  | .y => n .x + 1
  | .z => (n .y + 1) * (n .x + 1)

/-- A block position `(i, j, k)`, by axis. -/
def pos (i j k : ℕ) : Axis → ℕ
  | .x => i
  | .y => j
  | .z => k

/-- The place of a block in the table. -/
def blockAt (n : Axis → ℕ) (P : Axis → ℕ) : ℕ := (P .z * n .y + P .y) * n .x + P .x

/-! ## Marking -/

/-- `while (i > block_index[j]) j++`. -/
def seek (index : List ℤ) (i : ℤ) (j : ℕ) : ℕ := j + ((index.drop j).takeWhile fun b => i > b).length

/-- The box of a subgrid in block positions, both ends of one axis. -/
def boxIndex (index : Axis → List ℤ) (s : Subgrid) (a : Axis) : ℕ × ℕ :=
  let j := seek (index a) (s.lo a) 0
  (j, seek (index a) (s.lo a + s.num a) j)

/-- The positions of a box of blocks, x fastest. -/
def boxPositions (ib : Axis → ℕ × ℕ) : List (Axis → ℕ) :=
  (List.range' (ib .z).1 ((ib .z).2 - (ib .z).1)).flatMap fun k =>
    (List.range' (ib .y).1 ((ib .y).2 - (ib .y).1)).flatMap fun j =>
      (List.range' (ib .x).1 ((ib .x).2 - (ib .x).1)).map fun i => pos i j k

def markSubgrid (n : Axis → ℕ) (index : Axis → List ℤ) (block : ℕ → ℕ) (s : Subgrid) : ℕ → ℕ :=
  (boxPositions (boxIndex index s)).foldl
    (fun block P => Function.update block (blockAt n P) (factor n .z + factor n .y + factor n .x)) block

def markBlocks (n : Axis → ℕ) (index : Axis → List ℤ) (sa : SubgridArray) : ℕ → ℕ :=
  sa.foldl (markSubgrid n index) fun _ => 0

/-! ## Joining -/

structure JoinState where
  block : ℕ → ℕ
  join : Bool
  tmp0 : ℕ
  tmp1 : ℕ

/-- `block[index] = 0; block[run] += f`. -/
def growRun (f : ℕ) (block : ℕ → ℕ) (run index : ℕ) : ℕ → ℕ :=
  let block := Function.update block index 0
  Function.update block run (block run + f)

def joinStep (f : ℕ) (st : JoinState) (index : ℕ) : JoinState :=
  if st.join = true ∧ st.block index = st.tmp1 then
    { st with block := growRun f st.block st.tmp0 index }
  else if st.block index ≠ 0 then
    { st with tmp0 := index, tmp1 := st.block index, join := true }
  else { st with join := false }

def joinLine (f : ℕ) (st : JoinState) (line : List ℕ) : JoinState :=
  line.foldl (joinStep f) { st with join := false }

/-- The lines of the three joins, in the order of the source's outer loops. -/
def lines (n : Axis → ℕ) : Axis → List (List ℕ)
  | .x => (List.range (n .z)).flatMap fun k => (List.range (n .y)).map fun j =>
      (List.range (n .x)).map fun i => blockAt n (pos i j k)
  | .y => (List.range (n .z)).flatMap fun k => (List.range (n .x)).map fun i =>
      (List.range (n .y)).map fun j => blockAt n (pos i j k)
  | .z => (List.range (n .x)).flatMap fun i => (List.range (n .y)).map fun j =>
      (List.range (n .z)).map fun k => blockAt n (pos i j k)

def joinAxis (n : Axis → ℕ) (a : Axis) (st : JoinState) : JoinState :=
  (lines n a).foldl (joinLine (factor n a)) st

def joinBlocks (n : Axis → ℕ) (block : ℕ → ℕ) : ℕ → ℕ :=
  (joinAxis n .z (joinAxis n .y (joinAxis n .x ⟨block, false, 0, 0⟩))).block

/-! ## The joined boxes -/

/-- The extent of a block along an axis, read back from its value. -/
def extent (n : Axis → ℕ) (v : ℕ) : Axis → ℕ
  | .x => v % factor n .y
  | .y => v % factor n .z / factor n .y
  | .z => v / factor n .z

def joinedSubgrid (n : Axis → ℕ) (index : Axis → List ℤ) (rx ry rz : ℤ) (block : ℕ → ℕ)
    (P : Axis → ℕ) : Option Subgrid :=
  let v := block (blockAt n P)
  let lo := fun a => (index a).getD (P a) 0
  let up := fun a => (index a).getD (P a + extent n v a) 0
  if v ≠ 0 then
    some (newSubgrid (lo .x) (lo .y) (lo .z) (up .x - lo .x) (up .y - lo .y) (up .z - lo .z) rx ry rz 0)
  else none

/-- All positions of the table, x fastest. -/
def allPositions (n : Axis → ℕ) : List (Axis → ℕ) :=
  (List.range (n .z)).flatMap fun k => (List.range (n .y)).flatMap fun j =>
    (List.range (n .x)).map fun i => pos i j k

/-- The union of subgrids of one level: mark, join, read the boxes back. -/
def unionBlocks (rx ry rz : ℤ) (sa : SubgridArray) : SubgridArray :=
  let n := blockSz sa
  let index := blockIndex sa
  (allPositions n).filterMap
    (joinedSubgrid n index rx ry rz (joinBlocks n (markBlocks n index sa)))

/-- One turn of the loop over the levels; `old` holds the union of the finer levels. -/
def unionLevel (subgrids : SubgridArray) (level : ℤ) (old : SubgridArray) : SubgridArray :=
  match subgrids.filter fun s => s.level = level with
  | [] => old
  | s₀ :: rest =>
    let new := old.foldl (fun new o => new.flatMap fun s => subtractSubgrids s o) (s₀ :: rest)
    unionBlocks s₀.rx s₀.ry s₀.rz new ++ old

end Union

/-- The levels are worked off from the finest to the coarsest. -/
def unionSubgridArray (subgrids : SubgridArray) : SubgridArray :=
  (Union.levelArray subgrids).foldr (Union.unionLevel subgrids) []

end ParFlow

/-! `DistributeUserGrid` (`distribute_usergrid.c`): the subgrids of a process layout, and the search for a layout when
the user gives none. -/

namespace ParFlow

open IntLoop

def pqrToXyz (pqr mxyz lxyz xyz : ℤ) : ℤ := pqr * mxyz + min pqr lxyz + xyz

def pqrToNxyz (pqr mxyz lxyz : ℤ) : ℤ := if pqr < lxyz then mxyz + 1 else mxyz

/-- `R` is not used, as in the macro of `globals.h`. -/
def pqrToProcess (p q r P Q _R : ℤ) : ℤ := (r * Q + q) * P + p

def processSubgrid (user : Subgrid) (P Q R p q r : ℤ) : Subgrid :=
  let mx := user.nx.tdiv P
  let my := user.ny.tdiv Q
  let mz := user.nz.tdiv R
  let lx := user.nx.tmod P
  let ly := user.ny.tmod Q
  let lz := user.nz.tmod R
  newSubgrid (pqrToXyz p mx lx user.ix) (pqrToXyz q my ly user.iy) (pqrToXyz r mz lz user.iz)
    (pqrToNxyz p mx lx) (pqrToNxyz q my ly) (pqrToNxyz r mz lz) 0 0 0 (pqrToProcess p q r P Q R)

/-- `none` is the null pointer for a layout that does not fit the number of processes. A process grid
of the input is used as it stands. -/
def distributeUserGrid (processGrid : Option SubgridArray) (user : Subgrid) (numProcs P Q R : ℤ) :
    Option SubgridArray :=
  match processGrid with
  | some allSubgrids => some allSubgrids
  | none =>
    if P * Q * R = numProcs then
      some ((upto 0 P).flatMap fun p => (upto 0 Q).flatMap fun q => (upto 0 R).map fun r =>
        processSubgrid user P Q R p q r)
    else none

/-! ## The search for a layout -/

inductive LayoutFault where
  | divideByZero | fuel
  deriving DecidableEq, Repr

/-- `a / b` -/
def quotient (a b : ℤ) : Except LayoutFault ℤ := if b = 0 then .error .divideByZero else .ok (a.tdiv b)

/-- `a % b` -/
def remainder (a b : ℤ) : Except LayoutFault ℤ := if b = 0 then .error .divideByZero else .ok (a.tmod b)

/-- `(int)pow((double)v, 1.0 / 3.0)` -/
def cubeRoot (v : ℤ) : ℤ := Nat.nthRoot 3 v.toNat

/-- The layout for blocks of `m` cells along each axis. -/
def layoutFor (nx ny nz m : ℤ) : Except LayoutFault (ℤ × ℤ × ℤ) := do
  let P ← quotient nx m
  let Q ← quotient ny m
  let R ← quotient nz m
  let lx ← remainder nx m
  let P := P + if lx > P then 1 else 0
  let ly ← remainder ny m
  let Q := Q + if ly > Q then 1 else 0
  let lz ← remainder nz m
  let R := R + if lz > R then 1 else 0
  .ok (P, Q, R)

def layoutLoop (nx ny nz numProcs : ℤ) : ℕ → ℤ → Except LayoutFault (ℤ × ℤ × ℤ)
  | 0, _ => .error .fuel
  | fuel + 1, m => do
    let (P, Q, R) ← layoutFor nx ny nz m
    if P * Q * R > numProcs then layoutLoop nx ny nz numProcs fuel (m + 1) else .ok (P, Q, R)

/-- The layout that is used: the one of the user, or one that is searched for if a number is zero in it. -/
def chooseLayout (fuel : ℕ) (nx ny nz numProcs P Q R : ℤ) : Except LayoutFault (ℤ × ℤ × ℤ) :=
  if P = 0 ∨ Q = 0 ∨ R = 0 then do
    let cells ← quotient (nx * ny * nz) numProcs
    layoutLoop nx ny nz numProcs fuel (cubeRoot cells)
  else .ok (P, Q, R)

end ParFlow
