import ParFlow.Lib.TreeBroadcast
import ParFlow.Comm.PackDefs

/-! Broadcast of an invoice. The ranks are renumbered so that the source is rank 0, the ranks below the
greatest power of two form a binomial tree, and each of the others hangs under one rank of the tree. -/

namespace ParFlow

open TreeBroadcast (Op State start)

structure Powers where
  log : ℕ
  nnext : ℕ
  nprev : ℕ
  deriving DecidableEq

structure PowersLoop where
  high : ℕ
  highLog : ℕ
  low : ℕ
  lowLog : ℕ
  deriving DecidableEq

def findPowersLoop (N : ℕ) (s : PowersLoop) : PowersLoop :=
  if s.high > N ∧ s.low < N then
    findPowersLoop N ⟨s.high >>> 1, s.highLog - 1, s.low <<< 1, s.lowLog + 1⟩
  else s
termination_by s.high
decreasing_by
  rw [Nat.shiftRight_one]
  omega

def ampsHighestLong : ℕ := 0x07fffffff

def ampsHighestLongLog : ℕ := 31

def ampsFindPowers (N : ℕ) : Powers :=
  let s := findPowersLoop N ⟨ampsHighestLong, ampsHighestLongLog, 1, 0⟩
  let next :=
    if s.high ≤ N then
      if s.high = N then (N, s.highLog) else (s.high <<< 1, s.highLog + 1)
    else
      if s.low = N then (N, s.lowLog) else (s.low, s.lowLog)
  ⟨next.2, next.1, if N = next.1 then N else next.1 >>> 1⟩

def vtor (source node : ℕ) : ℕ := if node > source then node else if node ≠ 0 then node - 1 else source

def rtov (source node : ℕ) : ℕ := if node > source then node else if node < source then node + 1 else 0

/-- The messages of a rank of the tree from the value `d` of the loop on. -/
def bcastLoop (source n d begin : ℕ) (recvd : Bool) : List (Op ℕ) :=
  if 1 ≤ d then
    let startd := begin ^^^ d
    if !recvd && startd ≠ n then
      bcastLoop source n (d >>> 1) (if startd ≤ n then startd else begin) recvd
    else if recvd then
      .send (vtor source (n ^^^ d)) :: bcastLoop source n (d >>> 1) begin recvd
    else
      .recv (vtor source begin) :: bcastLoop source n (d >>> 1) begin true
  else []
termination_by d
decreasing_by
  all_goals
    rw [Nat.shiftRight_one]
    omega

def ampsBCast (N source rank : ℕ) : List (Op ℕ) :=
  let n := rtov source rank
  let poft := (ampsFindPowers N).nprev
  if poft ≤ n then [.recv (vtor source (n - poft))]
  else
    bcastLoop source n (poft >>> 1) 0 (n = 0) ++
      if n < N - poft then [.send (vtor source (poft + n))] else []

/-- All ranks are about to call the broadcast. -/
def bcastStart {α : Type*} (N source : ℕ) (data : ℕ → α) : State ℕ α :=
  start (fun rank => if rank < N then ampsBCast N source rank else []) data

end ParFlow

/-! The sizes of a strided vector (`amps_vector.c`): the room that the elements take in a message, and the room that
`amps_unpack` allocates for the array they lie in. Both are unsigned numbers of 32 bits, returned as an `int`. -/

namespace ParFlow

open IntLoop

/-- `AMPS_SIZEOF`, with a stride that is not used. -/
def ampsSizeof (len _stride size : ℤ) : ℤ := len * size

/-- `size` in `amps_vector_sizeof_buffer` after `n` turns of the loop. -/
def sizeofBuffer (elSize : ℤ) (len : ℕ → ℤ) : ℕ → BitVec 32
  | 0 => BitVec.ofInt 32 (ampsSizeof (len 0) 1 elSize)
  | n + 1 => sizeofBuffer elSize len n * BitVec.ofInt 32 (len (n + 1))

def ampsVectorSizeofBuffer (elSize : ℤ) (dim : ℕ) (len : ℕ → ℤ) : ℤ := (sizeofBuffer elSize len (dim - 1)).toInt

/-- `size` in `amps_vector_sizeof_local` after `n` turns of the loop. -/
def sizeofLocal (elSize : ℤ) (len stride : ℕ → ℤ) : ℕ → BitVec 32
  | 0 => BitVec.ofInt 32 (ampsSizeof (len 0) (stride 0) elSize)
  | n + 1 => sizeofLocal elSize len stride n * BitVec.ofInt 32 (len (n + 1)) +
      BitVec.ofInt 32 (stride (n + 1) * (len (n + 1) - 1)) * BitVec.ofInt 32 elSize

def ampsVectorSizeofLocal (elSize : ℤ) (dim : ℕ) (len stride : ℕ → ℤ) : ℤ :=
  (sizeofLocal elSize len stride (dim - 1)).toInt

/-- The bytes from the first of some elements to the end of the last. -/
def spanBytes (elSize : ℤ) (addresses : List ℤ) : ℤ :=
  (addresses.getLast?.getD 0 - addresses.head?.getD 0 + 1) * elSize

/-- The elements that `amps_vector_in` visits, for a vector at address zero. -/
def vectorElements (dim : ℕ) (len stride : ℕ → ℤ) : List ℤ := (vectorIn len stride (dim - 1) 0).1

/-! ## What the sizes are for -/

/-- The array that is allocated holds all the elements, and the message has room for just these. -/
def VectorSized (elSize : ℤ) (dim : ℕ) (len stride : ℕ → ℤ) : Prop :=
  spanBytes elSize (vectorElements dim len stride) ≤ ampsVectorSizeofLocal elSize dim len stride ∧
    (vectorElements dim len stride).length * elSize = ampsVectorSizeofBuffer elSize dim len

instance (elSize : ℤ) (dim : ℕ) (len stride : ℕ → ℤ) : Decidable (VectorSized elSize dim len stride) :=
  inferInstanceAs (Decidable (_ ∧ _))

/-- The offset of the last element, when a stride counts from the end of the dimensions below. -/
def lastOffset (len stride : ℕ → ℤ) : ℕ → ℤ
  | 0 => 0
  | d + 1 => lastOffset len stride d * len d + stride d * (len d - 1)

/-- The number of the lines along the first dimension. -/
def lineCount (dim : ℕ) (len : ℕ → ℤ) : ℤ := ((List.range (dim - 1)).map fun i => len (i + 1)).prod

end ParFlow
