import ParFlow.Geom.OctreeDefs

/-! The flags of branch nodes (`GrGeomOctreeSetBranchNodeFlags` in `grgeom_octree.c`). A walk
without recursion sums up the children of a node at the next level, sets the flags of the
node on the way up and adds the node to the sums of its own level. -/

namespace ParFlow.Geom

open FuelRun GrGeomOctree

/-- The arrays `empty`, `outside`, `inside` and `full` at each level. -/
abbrev LevelSums := ℕ → NodeFlags

/-- Only the levels above `level` start with `empty` and `full` set. -/
def initialSums (level : ℕ) : LevelSums := fun l => ⟨l < level, false, false, l < level⟩

def sumLeaf (sum flags : NodeFlags) : NodeFlags :=
  ⟨sum.empty && flags.empty, sum.outside || flags.outside, sum.inside || flags.inside, sum.full && flags.full⟩

def sumBranch (sum child : NodeFlags) : NodeFlags where
  empty := sum.empty && ((child.outside || child.empty) && !child.inside)
  outside := sum.outside || child.outside
  inside := sum.inside || child.inside
  full := sum.full && ((child.inside || child.full) && !child.outside)

/-- The flags of a branch node, set and cleared one after the other. -/
def branchFlags (child flags : NodeFlags) : NodeFlags :=
  let flags := if child.full then { flags with full := true, empty := false } else { flags with full := false }
  let flags := if child.empty then { flags with empty := true, full := false } else { flags with empty := false }
  let flags := if child.inside then { flags with inside := true } else { flags with inside := false }
  if child.outside then { flags with outside := true } else { flags with outside := false }

/-- A branch on the way to the current node, with the child that is visited. -/
structure BranchFrame where
  flags : NodeFlags
  faces : BitVec 8
  children : Fin 8 → GrGeomOctree
  visiting : ℕ

/-- The current node is at the level `path.length`. -/
structure FlagCursor where
  node : GrGeomOctree
  visiting : ℕ
  path : List BranchFrame
  sums : LevelSums

def setChild (children : Fin 8 → GrGeomOctree) (m : ℕ) (node : GrGeomOctree) : Fin 8 → GrGeomOctree :=
  fun i => if i.val = m then node else children i

/-- Back to the parent, in which the node was changed. Above the root the walk ends with the octree. -/
def goToParent (node : GrGeomOctree) (path : List BranchFrame) (sums : LevelSums) : FlagCursor ⊕ GrGeomOctree :=
  match path with
  | [] => .inr node
  | b :: path => .inl ⟨branch b.flags b.faces (setChild b.children b.visiting node), b.visiting + 1, path, sums⟩

def flagStep (c : FlagCursor) : FlagCursor ⊕ GrGeomOctree :=
  let l := c.path.length
  match c.node with
  | leaf flags faces => goToParent (leaf flags faces) c.path (Function.update c.sums l (sumLeaf (c.sums l) flags))
  | branch flags faces children =>
    if c.visiting < numChildren then
      .inl ⟨(branch flags faces children).child c.visiting, 0, ⟨flags, faces, children, c.visiting⟩ :: c.path, c.sums⟩
    else
      let child := c.sums (l + 1)
      let sums := Function.update c.sums l (sumBranch (c.sums l) child)
      goToParent (branch (branchFlags child flags) faces children) c.path
        (Function.update sums (l + 1) ⟨true, false, false, true⟩)

def flagRun : ℕ → FlagCursor ⊕ GrGeomOctree → Except Fault GrGeomOctree
  | _, .inr octree => .ok octree
  | 0, .inl _ => .error .fuel
  | fuel + 1, .inl c => flagRun fuel (flagStep c)

def octreeSetBranchNodeFlags (fuel : ℕ) (octree : GrGeomOctree) (level : ℕ) : Except Fault GrGeomOctree :=
  flagRun fuel (.inl ⟨octree, 0, [], initialSums level⟩)

end ParFlow.Geom

/-! Single cells of an octree (`grgeom_octree.c`). The bits of the indices tell the octants on the way down. A node that
is changed on the way is changed in the octree. -/

namespace ParFlow.Geom

open GrGeomOctree

/-! ## Nodes -/

def nodeEmpty : NodeFlags := ⟨true, false, false, false⟩

def nodeOutside : NodeFlags := ⟨false, true, false, false⟩

def nodeInside : NodeFlags := ⟨false, false, true, false⟩

def nodeFull : NodeFlags := ⟨false, false, false, true⟩

def newOctree : GrGeomOctree := leaf nodeEmpty 0

/-- The children of a node, after new ones were made for a leaf. -/
def newOctreeChildren : GrGeomOctree → Fin 8 → GrGeomOctree
  | leaf _ _ => fun _ => newOctree
  | branch _ _ children => children

/-- The flag of the constructor is kept. -/
def setLeafFlag (flags : NodeFlags) : GrGeomOctree → GrGeomOctree
  | leaf _ faces => leaf flags faces
  | branch _ faces children => branch flags faces children

def setFace (f : Face) : GrGeomOctree → GrGeomOctree
  | leaf flags faces => leaf flags (faces ||| (1#8 <<< f.index))
  | branch flags faces children => branch flags (faces ||| (1#8 <<< f.index)) children

/-! ## Octants -/

/-- A bit of an index as an unsigned number. -/
def maskBit (i : ℤ) (bit : ℕ) : Bool := i / 2 ^ bit % 2 ≠ 0

/-- The octant of a cell at the level that the bit stands for. -/
def octant (c : Cell) (bit : ℕ) : Fin 8 :=
  if maskBit c.2.2 bit then
    if maskBit c.2.1 bit then if maskBit c.1 bit then 7 else 6
    else if maskBit c.1 bit then 5 else 4
  else
    if maskBit c.2.1 bit then if maskBit c.1 bit then 3 else 2
    else if maskBit c.1 bit then 1 else 0

/-! ## Search -/

/-- The node where the search stops, and the levels that are left below it. -/
def findNode (c : Cell) : ℕ → GrGeomOctree → GrGeomOctree × ℕ
  | 0, node => (node, 0)
  | l + 1, leaf flags faces => (leaf flags faces, l + 1)
  | l + 1, branch _ _ children => findNode c l (children (octant c l))

def OutOfRange (c : Cell) (level : ℕ) : Prop :=
  (c.1 < 0 ∨ c.2.1 < 0 ∨ c.2.2 < 0) ∨ c.1 > 2 ^ level - 1 ∨ c.2.1 > 2 ^ level - 1 ∨ c.2.2 > 2 ^ level - 1

instance (c : Cell) (level : ℕ) : Decidable (OutOfRange c level) := inferInstanceAs (Decidable (_ ∨ _))

/-- The node of a cell and its level; no node is found out of range. -/
def octreeFind (octree : GrGeomOctree) (c : Cell) (level : ℕ) : Option (GrGeomOctree × ℕ) :=
  if OutOfRange c level then none
  else some ((findNode c level octree).1, level - (findNode c level octree).2)

/-- A change of the node that a search finds. -/
def modifyFound (f : GrGeomOctree → GrGeomOctree) (c : Cell) : ℕ → GrGeomOctree → GrGeomOctree
  | 0, node => f node
  | _ + 1, leaf flags faces => f (leaf flags faces)
  | l + 1, branch flags faces children =>
    branch flags faces (setChild children (octant c l) (modifyFound f c l (children (octant c l))))

/-! ## Cells -/

/-- A change of the node of a cell at the level, which is made on the way down where it is missing. -/
def modifyCell (f : GrGeomOctree → GrGeomOctree) (c : Cell) : ℕ → GrGeomOctree → GrGeomOctree
  | 0, node => f node
  | l + 1, node =>
    branch node.flags node.faces
      (setChild (newOctreeChildren node) (octant c l) (modifyCell f c l (newOctreeChildren node (octant c l))))

/-- Inside cells are not overwritten. -/
def writeCell (cell : NodeFlags) (node : GrGeomOctree) : GrGeomOctree :=
  if ¬ node.nodeIsInside then setLeafFlag cell node else node

def octreeAddCell (octree : GrGeomOctree) (cell : NodeFlags) (c : Cell) (level : ℕ) : GrGeomOctree :=
  modifyCell (writeCell cell) c level octree

end ParFlow.Geom

/-! The octree of an indicator field (`GrGeomOctreeFromInd` in `grgeom_octree.c`), with the space it lies in. The same
lines are written for every axis, and stand here once. -/

namespace ParFlow.Geom

open FuelRun IntLoop GrGeomOctree

/-! ## The index space -/

/-- `Background`, in exact numbers. -/
structure Background where
  origin : Axis → ℚ
  spacing : Axis → ℚ
  lo : Axis → ℤ
  num : Axis → ℤ

/-- A cast truncates. -/
def pfround (x : ℚ) : ℤ := if x < 0 then ⌈x - 1 / 2⌉ else ⌊x + 1 / 2⌋

namespace Background

variable (bg : Background) (a : Axis)

def realSpaceD (r : ℤ) : ℚ := bg.spacing a / 2 ^ r

def realSpace (i r : ℤ) : ℚ := bg.origin a + (i + 1 / 2) * bg.realSpaceD a r

def indexSpace (x : ℚ) (r : ℤ) : ℤ := pfround ((x - bg.realSpace a 0 r) / bg.realSpaceD a r)

def lower : ℚ := bg.origin a + bg.lo a * bg.spacing a

/-- The rounded up logarithm of the largest size. -/
def level : ℕ := max (max (Nat.clog 2 (bg.num .x).toNat) (Nat.clog 2 (bg.num .y).toNat)) (Nat.clog 2 (bg.num .z).toNat)

end Background

/-- What relates an octree to the background. -/
structure OctreeInfo where
  lower : Axis → ℚ
  upper : Axis → ℚ
  offset : Axis → ℤ
  level : ℕ

def getOctreeInfo (bg : Background) : OctreeInfo where
  lower := bg.lower
  upper a := bg.lower a + 2 ^ bg.level * bg.spacing a
  offset := bg.lo
  level := bg.level

/-! ## Faces -/

/-- The cell of a line along an axis, with the indices across the line in their order. -/
def lineCell (line : Axis) (index0 index1 i : ℤ) : Cell :=
  match line with
  | .x => (i, index0, index1)
  | .y => (index0, i, index1)
  | .z => (index0, index1, i)

/-- The face at the upper end of a cell. -/
def upperFace : Axis → Face
  | .x => .R
  | .y => .U
  | .z => .F

def lowerFace : Axis → Face
  | .x => .L
  | .y => .D
  | .z => .B

/-- The label on one side of a face, by the sign of the normal component on that side. -/
def normalFlags (normal : ℤ) : NodeFlags :=
  if normal < 0 then nodeOutside else if normal > 0 then nodeInside else ⟨false, false, false, false⟩

def addCellFace (octree : GrGeomOctree) (cell : NodeFlags) (c : Cell) (f : Face) (level : ℕ) : GrGeomOctree :=
  modifyCell (fun node => setFace f (writeCell cell node)) c level octree

/-- Both cells of a face are added, when they are within the extents of the line. -/
def octreeAddFace (octree : GrGeomOctree) (line : Axis) (index0 index1 faceIndex extentLower extentUpper : ℤ) (level : ℕ)
    (normal : ℤ) : GrGeomOctree :=
  let octree :=
    if faceIndex - 1 ≥ extentLower ∧ faceIndex - 1 ≤ extentUpper then
      addCellFace octree (normalFlags normal) (lineCell line index0 index1 (faceIndex - 1)) (upperFace line) level
    else octree
  if faceIndex ≥ extentLower ∧ faceIndex ≤ extentUpper then
    addCellFace octree (normalFlags (-normal)) (lineCell line index0 index1 faceIndex) (lowerFace line) level
  else octree

/-! ## Sweeps -/

/-- What the sweeps over one subgrid use. `ind` is referenced from the corner of the ghost layer. -/
structure IndicatorSweep where
  level : ℕ
  lo : Axis → ℤ
  hi : Axis → ℤ
  all : Axis → ℤ
  numAll : Axis → ℤ
  shift : Axis → ℤ
  ind : Cell → Bool

/-- The axes across a line, in the order of the loops from the inside. -/
def crossAxes : Axis → Axis × Axis
  | .x => (.y, .z)
  | .y => (.x, .z)
  | .z => (.x, .y)

def edgeTag (state prevState : Bool) : ℤ :=
  if state then if prevState ≠ true then -1 else 0
  else if prevState ≠ false then 1 else 0

/-- The edge crossings along a line, with their indices. -/
def edgeTags (state : ℤ → Bool) (num : ℤ) : List (ℤ × ℤ) :=
  ((upto 0 (num - 2)).foldl (fun (st : Bool × List (ℤ × ℤ)) k =>
    (state (k + 1), st.2 ++ [(k, edgeTag (state (k + 1)) st.1)])) (state 0, [])).2

namespace IndicatorSweep

variable (s : IndicatorSweep)

def sweepLine (line : Axis) (octree : GrGeomOctree) (i0 i1 : ℤ) : GrGeomOctree :=
  let cross := crossAxes line
  (edgeTags (fun k => s.ind (lineCell line (i0 - s.all cross.1) (i1 - s.all cross.2) k)) (s.numAll line)).foldl
    (fun octree kt =>
      if kt.2 ≠ 0 then
        octreeAddFace octree line (i0 - s.shift cross.1) (i1 - s.shift cross.2) (s.all line + kt.1 + 1 - s.shift line)
          (s.lo line) (s.hi line) s.level kt.2
      else octree) octree

/-- Inside and outside nodes along the lines of one axis. -/
def sweep (line : Axis) (octree : GrGeomOctree) : GrGeomOctree :=
  let cross := crossAxes line
  (upto (s.lo cross.2) (s.hi cross.2 + 1)).foldl (fun octree i1 =>
    (upto (s.lo cross.1) (s.hi cross.1 + 1)).foldl (fun octree i0 => s.sweepLine line octree i0 i1) octree) octree

/-! ## Filling -/

/-- Children of a node that are full. -/
def fullChildren (node : GrGeomOctree) : GrGeomOctree :=
  branch node.flags node.faces fun m => setLeafFlag nodeFull (newOctreeChildren node m)

/-- A node that is not full: an empty one is set, and a larger one gets full children. -/
def fillNode (minL : ℤ) (newLevel : ℕ) (node : GrGeomOctree) : GrGeomOctree :=
  if ¬ node.nodeIsFull then
    if newLevel = s.level ∨ (newLevel : ℤ) < minL then
      if node.nodeIsEmpty then setLeafFlag nodeFull node else node
    else fullChildren node
  else node

/-- `while (k <= k_end)`. The index into `ind` is taken from `k_begin`. -/
def fillColumn (minL i j : ℤ) : ℕ → ℤ → GrGeomOctree → Except Fault GrGeomOctree
  | 0, _, _ => .error .fuel
  | fuel + 1, k, octree =>
    if k ≤ s.hi .z then
      if s.ind (i - s.all .x, j - s.all .y, k - s.lo .z) then
        let c : Cell := (i - s.shift .x, j - s.shift .y, k - s.shift .z)
        match octreeFind octree c s.level with
        | none => .error .null
        | some (_, newLevel) =>
          let tmpInc := intPow2 (s.level - newLevel)
          fillColumn minL i j fuel ((k.tdiv tmpInc + 1) * tmpInc) (modifyFound (s.fillNode minL newLevel) c s.level octree)
      else fillColumn minL i j fuel (k + 1) octree
    else .ok octree

def fill (minL : ℤ) (fuel : ℕ) (octree : GrGeomOctree) : Except Fault GrGeomOctree :=
  (upto (s.lo .y) (s.hi .y + 1)).foldlM (fun octree j =>
    (upto (s.lo .x) (s.hi .x + 1)).foldlM (fun octree i => s.fillColumn minL i j fuel (s.lo .z) octree) octree) octree

def addIndicator (minL : ℤ) (fuel : ℕ) (octree : GrGeomOctree) : Except Fault GrGeomOctree :=
  s.fill minL fuel (s.sweep .x (s.sweep .y (s.sweep .z octree)))

end IndicatorSweep

/-! ## The octree -/

/-- The values of a field on a subgrid and its ghost layer. -/
structure IndicatorField where
  subgrid : Subgrid
  data : Cell → ℚ

def IndicatorField.sweep (bg : Background) (info : OctreeInfo) (field : IndicatorField) (indicator : ℤ) : IndicatorSweep :=
  let l := field.subgrid.rx
  let all := fun a => field.subgrid.lo a - 2
  let numAll := fun a => field.subgrid.num a + 4
  { level := (info.level + l).toNat
    lo := fun a => bg.indexSpace a (max (bg.realSpace a (all a) (field.subgrid.res a)) (info.lower a)) (field.subgrid.res a)
    hi := fun a =>
      bg.indexSpace a (min (bg.realSpace a (all a + (numAll a - 1)) (field.subgrid.res a)) (info.upper a)) (field.subgrid.res a)
    all := all
    numAll := numAll
    shift := fun a => (info.offset a).tdiv (intPow2 l)
    ind := fun c => field.data (c.1 + all .x, c.2.1 + all .y, c.2.2 + all .z) = indicator }

/-- The coarsest and the finest resolution of the subgrids. -/
def minLevel (fields : List IndicatorField) : ℤ :=
  match fields with
  | [] => 0
  | field :: fields => fields.foldl (fun l field => if field.subgrid.rx < l then field.subgrid.rx else l) field.subgrid.rx

def maxLevel (fields : List IndicatorField) : ℤ :=
  match fields with
  | [] => 0
  | field :: fields => fields.foldl (fun l field => if field.subgrid.rx > l then field.subgrid.rx else l) field.subgrid.rx

def octreeFromInd (fuel : ℕ) (bg : Background) (fields : List IndicatorField) (indicator : ℤ) (info : OctreeInfo) :
    Except Fault GrGeomOctree := do
  let minL := minLevel fields
  let octree ← (upto minL (maxLevel fields + 1)).foldlM (fun octree l =>
    fields.foldlM (fun octree field =>
      if field.subgrid.rx = l then (field.sweep bg info indicator).addIndicator minL fuel octree else .ok octree) octree)
    newOctree
  octreeSetBranchNodeFlags fuel octree info.level

/-- The field as `Geometries` reads it: where nothing is read, there is no indicator. -/
def readIndicatorField (subgrid : Subgrid) (values : Cell → ℚ) : IndicatorField where
  subgrid := subgrid
  data c := if c ∈ subgrid.cells then values c else -1

end ParFlow.Geom
