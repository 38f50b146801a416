import ParFlow.Lib.IntLoop
import ParFlow.Lib.Sorting

/-! Sorting of arrays and, with them, of an array of indices (`quicksort.c`, `geom_sort_vertices.c`,
`geom_sort_xy_vertices.c`). Memory is a function of the index. Reading or writing outside `lo, …, hi` is a fault;
`while` loops and the recursion take fuel, and running out of it is an error of its own. -/

namespace ParFlow.Geom

inductive SortFault where
  | outside | fuel
  deriving DecidableEq, Repr

/-- `array` and `permute`, which is `none` where the pointer is `NULL`. -/
structure SortArrays (E : Type) where
  array : ℤ → E
  permute : Option (ℤ → ℤ)

section

variable {α E : Type} (lo hi : ℤ)

/-- `a[i]`. -/
def getAt (a : ℤ → α) (i : ℤ) : Except SortFault α := if lo ≤ i ∧ i ≤ hi then .ok (a i) else .error .outside

/-- `a[i] = x`. -/
def setAt (a : ℤ → α) (i : ℤ) (x : α) : Except SortFault (ℤ → α) :=
  if lo ≤ i ∧ i ≤ hi then .ok (Function.update a i x) else .error .outside

/-- The macro `Swap`. -/
def swapAt (a : ℤ → α) (i j : ℤ) : Except SortFault (ℤ → α) := do
  let tmp ← getAt lo hi a i
  let x ← getAt lo hi a j
  let a ← setAt lo hi a i x
  setAt lo hi a j tmp

/-- `Swap(array, i, j, tmp_vert); if (permute) Swap(permute, i, j, tmp_index);`. -/
def swapBoth (s : SortArrays E) (i j : ℤ) : Except SortFault (SortArrays E) := do
  let array ← swapAt lo hi s.array i j
  let permute ← s.permute.mapM fun p => swapAt lo hi p i j
  .ok ⟨array, permute⟩

variable (lessThan greaterThan : E → E → Bool)

/-- A comparison of the set-up: the entries change places if the first one is greater. -/
def swapIfGreater (s : SortArrays E) (i j : ℤ) : Except SortFault (SortArrays E) := do
  let x ← getAt lo hi s.array i
  let y ← getAt lo hi s.array j
  if greaterThan x y then swapBoth lo hi s i j else .ok s

/-- `while (!(i > last))`: find element `i` that is >= element `first`. -/
def findUp (a : ℤ → E) (first last : ℤ) : ℕ → ℤ → Except SortFault ℤ
  | 0, _ => .error .fuel
  | fuel + 1, i =>
    if last < i then .ok i
    else do
      let x ← getAt lo hi a i
      let y ← getAt lo hi a first
      if lessThan x y then findUp a first last fuel (i + 1) else .ok i

/-- The second `while (1)`: find element `j` that is <= element `first`. -/
def findDown (a : ℤ → E) (first : ℤ) : ℕ → ℤ → Except SortFault ℤ
  | 0, _ => .error .fuel
  | fuel + 1, j => do
    let x ← getAt lo hi a j
    let y ← getAt lo hi a first
    if greaterThan x y then findDown a first fuel (j - 1) else .ok j

/-- The first `while (1)`, with the final `j`. -/
def partitionLoop (first last : ℤ) : ℕ → SortArrays E → ℤ → ℤ → Except SortFault (SortArrays E × ℤ)
  | 0, _, _, _ => .error .fuel
  | fuel + 1, s, i, j => do
    let i ← findUp lo hi lessThan s.array first last fuel i
    let j ← findDown lo hi greaterThan s.array first fuel j
    if i < j then do
      let s ← swapBoth lo hi s i j
      partitionLoop first last fuel s (i + 1) (j - 1)
    else .ok (s, j)

/-- The entry from the middle goes to `first + 1`; the median of it, `first` and `last` goes to `first`. -/
def chooseMedian (first last : ℤ) (s : SortArrays E) : Except SortFault (SortArrays E) := do
  let s ← swapBoth lo hi s ((first + last).tdiv 2) (first + 1)
  let s ← swapIfGreater lo hi greaterThan s (first + 1) last
  let s ← swapIfGreater lo hi greaterThan s first last
  swapIfGreater lo hi greaterThan s (first + 1) first

/-- The inner loop of the insertion sort, with the final `i`. -/
def shiftLoop (first : ℤ) (tmpVert : E) : ℕ → SortArrays E → ℤ → Except SortFault (SortArrays E × ℤ)
  | 0, _, _ => .error .fuel
  | fuel + 1, s, i =>
    if first ≤ i then do
      let x ← getAt lo hi s.array i
      if lessThan tmpVert x then do
        let array ← setAt lo hi s.array (i + 1) x
        let permute ← s.permute.mapM fun p => do
          let x ← getAt lo hi p i
          setAt lo hi p (i + 1) x
        shiftLoop first tmpVert fuel ⟨array, permute⟩ (i - 1)
      else .ok (s, i)
    else .ok (s, i)

/-- The body of the insertion sort. -/
def insertOne (first : ℤ) (fuel : ℕ) (s : SortArrays E) (j : ℤ) : Except SortFault (SortArrays E) := do
  let tmpVert ← getAt lo hi s.array j
  let tmpIndex ← s.permute.mapM fun p => getAt lo hi p j
  let (s, i) ← shiftLoop lo hi lessThan first tmpVert fuel s (j - 1)
  let array ← setAt lo hi s.array (i + 1) tmpVert
  let permute ← s.permute.mapM fun p => setAt lo hi p (i + 1) (tmpIndex.getD 0)
  .ok ⟨array, permute⟩

/-- `for (j = (first + 1); j <= last; j++)`. -/
def insertionSort (first last : ℤ) (fuel : ℕ) (s : SortArrays E) : Except SortFault (SortArrays E) :=
  (IntLoop.upto (first + 1) (last + 1)).foldlM (insertOne lo hi lessThan first fuel) s

def quickSort (crossover : ℤ) : ℕ → ℤ → ℤ → SortArrays E → Except SortFault (SortArrays E)
  | 0, _, _, _ => .error .fuel
  | fuel + 1, first, last, s =>
    if crossover < last - first then do
      let s ← chooseMedian lo hi greaterThan first last s
      let (s, j) ← partitionLoop lo hi lessThan greaterThan first last fuel s (first + 1) last
      let s ← swapBoth lo hi s first j
      let s ← quickSort crossover fuel first (j - 1) s
      quickSort crossover fuel (j + 1) last s
    else insertionSort lo hi lessThan first last fuel s

end

/-! ## Vertices -/

structure Vertex (K : Type) where
  x : K
  y : K
  z : K
  deriving DecidableEq, Repr

def qsortCrossover : ℤ := 10

section

variable {K : Type} [LinearOrder K]

/-- The macro `Compare` of `geom_sort_vertices.c` with `<`, then with `>`. -/
def compareLessThan (vertex0 vertex1 : Vertex K) : Bool :=
  if vertex0.z < vertex1.z then true
  else if vertex0.z = vertex1.z then
    if vertex0.y < vertex1.y then true
    else if vertex0.y = vertex1.y then decide (vertex0.x < vertex1.x) else false
  else false

def compareGreaterThan (vertex0 vertex1 : Vertex K) : Bool :=
  if vertex0.z > vertex1.z then true
  else if vertex0.z = vertex1.z then
    if vertex0.y > vertex1.y then true
    else if vertex0.y = vertex1.y then decide (vertex0.x > vertex1.x) else false
  else false

/-- The macro `Compare` of `geom_sort_xy_vertices.c` with `<`, then with `>`. -/
def compareXYLessThan (vertex0 vertex1 : Vertex K) : Bool :=
  if vertex0.y < vertex1.y then true
  else if vertex0.y = vertex1.y then decide (vertex0.x < vertex1.x) else false

def compareXYGreaterThan (vertex0 vertex1 : Vertex K) : Bool :=
  if vertex0.y > vertex1.y then true
  else if vertex0.y = vertex1.y then decide (vertex0.x > vertex1.x) else false

/-- The entries of `vertices` are pointers, and `mem` holds what they point to. The array `permute` has `nvertices`
elements and starts as `0, …, nvertices - 1`. -/
def sortVertices {ι : Type} (mem : ι → Vertex K) (vertices : ℤ → ι) (nvertices : ℤ) (returnPermute : Bool) (fuel : ℕ) :
    Except SortFault (SortArrays ι) :=
  quickSort 0 (nvertices - 1) (fun p q => compareLessThan (mem p) (mem q)) (fun p q => compareGreaterThan (mem p) (mem q))
    qsortCrossover fuel 0 (nvertices - 1) ⟨vertices, if returnPermute then some id else none⟩

def sortXYVertices {ι : Type} (mem : ι → Vertex K) (vertices : ℤ → ι) (nvertices : ℤ) (returnPermute : Bool) (fuel : ℕ) :
    Except SortFault (SortArrays ι) :=
  quickSort 0 (nvertices - 1) (fun p q => compareXYLessThan (mem p) (mem q))
    (fun p q => compareXYGreaterThan (mem p) (mem q)) qsortCrossover fuel 0 (nvertices - 1)
    ⟨vertices, if returnPermute then some id else none⟩

end

end ParFlow.Geom
