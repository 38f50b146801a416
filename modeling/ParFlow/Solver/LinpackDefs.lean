import Mathlib.Algebra.Order.Field.Basic
import ParFlow.Lib.IntLoop

/-! The routines `dpofa_` and `dposl_` of LINPACK with `ddot_` and `daxpy_` (`dpofa.c`, `dposl.c`), in exact arithmetic. An
array is a function of the offset from its first entry; the pointers are moved as in the source, so that entries count from
1. -/

namespace ParFlow.Linpack

open IntLoop

variable {K : Type} [Field K] [LinearOrder K]

/-- Where a loop with the increment `inc` starts. -/
def start (n inc : ℤ) : ℤ := if inc < 0 then (-n + 1) * inc + 1 else 1

def ddot (n : ℤ) (dx : ℤ → K) (incx : ℤ) (dy : ℤ → K) (incy : ℤ) : K :=
  let dy := fun i => dy (i - 1)
  let dx := fun i => dx (i - 1)
  if n ≤ 0 then 0
  else if incx = 1 ∧ incy = 1 then
    let m := n % 5
    let dtemp := if m = 0 then 0 else (upto 1 (m + 1)).foldl (fun dtemp i => dtemp + dx i * dy i) 0
    if m ≠ 0 ∧ n < 5 then dtemp
    else
      (uptoBy (m + 1) (n + 1) 5).foldl (fun dtemp i =>
        dtemp + dx i * dy i + dx (i + 1) * dy (i + 1) + dx (i + 2) * dy (i + 2) + dx (i + 3) * dy (i + 3) +
          dx (i + 4) * dy (i + 4)) dtemp
  else
    ((upto 1 (n + 1)).foldl (fun (st : K × ℤ × ℤ) _ =>
      (st.1 + dx st.2.1 * dy st.2.2, st.2.1 + incx, st.2.2 + incy)) (0, start n incx, start n incy)).1

def daxpy (n : ℤ) (da : K) (dx : ℤ → K) (incx : ℤ) (dy : ℤ → K) (incy : ℤ) : ℤ → K :=
  let dx := fun i => dx (i - 1)
  let add := fun (dy : ℤ → K) ix iy => Function.update dy (iy - 1) (dy (iy - 1) + da * dx ix)
  if n ≤ 0 then dy
  else if da = 0 then dy
  else if incx = 1 ∧ incy = 1 then
    let m := n % 4
    let dy := if m = 0 then dy else (upto 1 (m + 1)).foldl (fun dy i => add dy i i) dy
    if m ≠ 0 ∧ n < 4 then dy
    else
      (uptoBy (m + 1) (n + 1) 4).foldl (fun dy i =>
        add (add (add (add dy i i) (i + 1) (i + 1)) (i + 2) (i + 2)) (i + 3) (i + 3)) dy
  else
    ((upto 1 (n + 1)).foldl (fun (st : (ℤ → K) × ℤ × ℤ) _ =>
      (add st.1 st.2.1 st.2.2, st.2.1 + incx, st.2.2 + incy)) (dy, start n incx, start n incy)).1

/-- The offset of `a[k + j * a_dim1]` once the pointer is moved. -/
def addr (lda k j : ℤ) : ℤ := k + j * lda - (lda + 1)

/-- A column from its first entry on. -/
def column (a : ℤ → K) (lda j : ℤ) (i : ℤ) : K := a (addr lda 1 j + i)

/-- A round on column `j`: the entry `k` above the diagonal, and the sum of the squares so far. -/
def dpofaRound (lda j : ℤ) (st : (ℤ → K) × K) (k : ℤ) : (ℤ → K) × K :=
  let t := st.1 (addr lda k j) - ddot (k - 1) (column st.1 lda k) 1 (column st.1 lda j) 1
  let t := t / st.1 (addr lda k k)
  (Function.update st.1 (addr lda k j) t, st.2 + t * t)

/-- The loop over the entries above the diagonal of column `j`. -/
def dpofaColumn (lda j : ℤ) (a : ℤ → K) : (ℤ → K) × K := (upto 1 (j - 1 + 1)).foldl (dpofaRound lda j) (a, 0)

/-- A column, or the array and `info` when its pivot is not positive. -/
def dpofaStep (sqrt : K → K) (lda : ℤ) (a : ℤ → K) (j : ℤ) : Except ((ℤ → K) × ℤ) (ℤ → K) :=
  let r := dpofaColumn lda j a
  let s := r.1 (addr lda j j) - r.2
  -- `info` has been set to `j` at the start of the round
  if s ≤ 0 then .error (r.1, j) else .ok (Function.update r.1 (addr lda j j) (sqrt s))

/-- The array and `info`. -/
def dpofa (sqrt : K → K) (a : ℤ → K) (lda n : ℤ) : (ℤ → K) × ℤ :=
  match (upto 1 (n + 1)).foldlM (dpofaStep sqrt lda) a with
  | .ok a => (a, 0)
  | .error r => r

/-- A row of `trans(r) * y = b`. -/
def forwardStep (a : ℤ → K) (lda : ℤ) (b : ℤ → K) (k : ℤ) : ℤ → K :=
  let t := ddot (k - 1) (column a lda k) 1 b 1
  Function.update b (k - 1) ((b (k - 1) - t) / a (addr lda k k))

/-- A row of `r * x = y`, from the last one on. -/
def backwardStep (a : ℤ → K) (lda n : ℤ) (b : ℤ → K) (kb : ℤ) : ℤ → K :=
  let k := n + 1 - kb
  let b := Function.update b (k - 1) (b (k - 1) / a (addr lda k k))
  let t := -b (k - 1)
  daxpy (k - 1) t (column a lda k) 1 b 1

def dposl (a : ℤ → K) (lda n : ℤ) (b : ℤ → K) : ℤ → K :=
  let b := (upto 1 (n + 1)).foldl (forwardStep a lda) b
  (upto 1 (n + 1)).foldl (backwardStep a lda n) b

end ParFlow.Linpack
