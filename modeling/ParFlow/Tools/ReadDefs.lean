import Mathlib
import ParFlow.Lib.Numerals
import ParFlow.Lib.WriteLog
import ParFlow.Pfb.DistDefs

/-! The reader of scattered points (`ReadRealSA` of `readdatabox.c`). Each point goes to the cell that its coordinates are
rounded to, and points outside the grid are passed over. -/

namespace ParFlow.RealSA

open WriteLog
open scoped Numerals
open ParFlow.Pfb (Databox)

variable {K : Type} [Field K] [LinearOrder K] [FloorRing K]

/-- What the file holds before the points. -/
structure Header (K : Type) where
  x0 : K
  y0 : K
  z0 : K
  nx : ℤ
  ny : ℤ
  nz : ℤ
  dx : K
  dy : K
  dz : K

structure Point (K : Type) where
  x : K
  y : K
  z : K
  value : K

/-- The conversion of a double to `int`, toward zero. -/
def toInt (t : K) : ℤ := if 0 ≤ t then ⌊t⌋ else ⌈t⌉

def axisIndex (x0 dx x : K) : ℤ := toInt ((x - x0) / dx + 1 / 2)

def cellIndex (h : Header K) (p : Point K) : ℤ × ℤ × ℤ :=
  (axisIndex h.x0 h.dx p.x, axisIndex h.y0 h.dy p.y, axisIndex h.z0 h.dz p.z)

/-- `(ix > -1) && (ix < nx)` on every axis. -/
def InGrid (h : Header K) (c : ℤ × ℤ × ℤ) : Prop :=
  (-1 < c.1 ∧ c.1 < h.nx) ∧ (-1 < c.2.1 ∧ c.2.1 < h.ny) ∧ (-1 < c.2.2 ∧ c.2.2 < h.nz)

instance (h : Header K) (c : ℤ × ℤ × ℤ) : Decidable (InGrid h c) := inferInstanceAs (Decidable (_ ∧ _))

/-- `NewDataboxDefault` -/
def newDataboxDefault (nx ny nz : ℤ) (x y z dx dy dz defaultValue : K) : Databox K :=
  ⟨nx, ny, nz, x, y, z, dx, dy, dz, fun _ => defaultValue⟩

/-- The round of the loop for one point. -/
def readPoint (h : Header K) (v : Databox K) (p : Point K) : Databox K :=
  let c := cellIndex h p
  if InGrid h c then { v with coeffs := Function.update v.coeffs (v.coeff c.1 c.2.1 c.2.2) p.value } else v

def readRealSA (h : Header K) (defaultValue : K) (points : List (Point K)) : Databox K :=
  points.foldl (readPoint h) (newDataboxDefault h.nx h.ny h.nz 0 0 0 0 0 0 defaultValue)

/-! ## What the file says -/

/-- Within half a cell of the position of cell `i`; the upper boundary belongs to the next cell. -/
def NearAxis (x0 dx x : K) (i : ℤ) : Prop := x0 + i * dx - dx / 2 ≤ x ∧ x < x0 + i * dx + dx / 2

/-- Below the first cell of an axis, by less than a cell. -/
def BelowAxis (x0 dx x : K) : Prop := x0 - dx - dx / 2 < x ∧ x < x0 - dx / 2

instance (x0 dx x : K) (i : ℤ) : Decidable (NearAxis x0 dx x i) := inferInstanceAs (Decidable (_ ∧ _))

instance (x0 dx x : K) : Decidable (BelowAxis x0 dx x) := inferInstanceAs (Decidable (_ ∧ _))

def Near (h : Header K) (c : ℤ × ℤ × ℤ) (p : Point K) : Prop :=
  NearAxis h.x0 h.dx p.x c.1 ∧ NearAxis h.y0 h.dy p.y c.2.1 ∧ NearAxis h.z0 h.dz p.z c.2.2

instance (h : Header K) (c : ℤ × ℤ × ℤ) : DecidablePred (Near h c) := fun _ => inferInstanceAs (Decidable (_ ∧ _))

/-- Near the cell, where the first cell of each axis also takes the points below it. -/
def Reaches (h : Header K) (c : ℤ × ℤ × ℤ) (p : Point K) : Prop :=
  (NearAxis h.x0 h.dx p.x c.1 ∨ c.1 = 0 ∧ BelowAxis h.x0 h.dx p.x) ∧
    (NearAxis h.y0 h.dy p.y c.2.1 ∨ c.2.1 = 0 ∧ BelowAxis h.y0 h.dy p.y) ∧
    (NearAxis h.z0 h.dz p.z c.2.2 ∨ c.2.2 = 0 ∧ BelowAxis h.z0 h.dz p.z)

instance (h : Header K) (c : ℤ × ℤ × ℤ) : DecidablePred (Reaches h c) := fun _ => inferInstanceAs (Decidable (_ ∧ _))

/-- The value of the last point near the cell. -/
def nearestValue (h : Header K) (defaultValue : K) (points : List (Point K)) (c : ℤ × ℤ × ℤ) : K :=
  lastValue (Near h c) Point.value defaultValue points

def ReadsNearest (h : Header K) (defaultValue : K) (points : List (Point K)) : Prop :=
  ∀ c, InGrid h c → (readRealSA h defaultValue points).coeffs
    ((readRealSA h defaultValue points).coeff c.1 c.2.1 c.2.2) = nearestValue h defaultValue points c

/-- A point below the grid that reaches a cell is followed by another that does, or has the value that the cell has from
the points before it. -/
def StraysHarmless (h : Header K) (defaultValue : K) (points : List (Point K)) : Prop :=
  ∀ c, InGrid h c → ∀ before p after, points = before ++ p :: after → Reaches h c p → (∀ q ∈ after, ¬ Reaches h c q) →
    Near h c p ∨ p.value = nearestValue h defaultValue before c

end ParFlow.RealSA

/-! The header of an AVS field file (`parse_fld_header` of `readdatabox.c`). A line is a list of characters with a zero
behind it. Reading behind the zero, and writing behind the room of an array, are errors. -/

namespace ParFlow.AvsField

inductive Fault where
  | pastLine
  | pastToken
  | pastValue
  | pastPairs
  deriving DecidableEq

/-- `isspace` -/
def isSpace (c : Char) : Bool := (9 ≤ c.toNat ∧ c.toNat ≤ 13) ∨ c = ' '

/-- The lines that `strtok` finds; it passes over the empty ones. -/
def strtokLines (header : List Char) : List (List Char) := (header.splitOn '\n').filter (· ≠ [])

def killComments (line : List Char) : List Char := line.takeWhile (· ≠ '#')

/-- The loop that fills the token, with room for `room` characters. The zero at the end of the line is no blank and no
equals sign, so that the loop goes on behind it. -/
def scanToken (room : ℕ) : List Char → List Char → Except Fault (List Char × List Char)
  | _, [] => .error .pastLine
  | token, c :: rest =>
    if isSpace c ∨ c = '=' then .ok (token, c :: rest)
    else if token.length < room then scanToken room (token ++ [c]) rest
    else .error .pastToken

/-- The zero behind a text that was copied. -/
def terminate (room : ℕ) (fault : Fault) (text : List Char) : Except Fault (List Char) :=
  if text.length < room then .ok text else .error fault

inductive LineResult where
  | blank
  | reject
  | pair (token value : List Char)
  deriving DecidableEq

def parseLine (line : List Char) : Except Fault LineResult :=
  let room := line.length + 1
  let text := (killComments line).rdropWhile isSpace
  if text = [] then .ok .blank
  else do
    let (token, rest) ← scanToken room [] (text.dropWhile isSpace)
    let token ← terminate room .pastToken token
    match rest.dropWhile isSpace with
    | '=' :: rest => do
      let value ← terminate room .pastValue (rest.dropWhile isSpace)
      .ok (.pair token value)
    | _ => .ok .reject

/-- The arrays of tokens and values have room for `newlines` entries; `none` is the return of zero. -/
def parseLines (newlines : ℕ) : List (List Char) → List (List Char × List Char) →
    Except Fault (Option (List (List Char × List Char)))
  | [], pairs => .ok (some pairs)
  | line :: lines, pairs => do
    match ← parseLine line with
    | .blank => parseLines newlines lines pairs
    | .reject => .ok none
    | .pair token value =>
      if pairs.length < newlines then parseLines newlines lines (pairs ++ [(token, value)]) else .error .pastPairs

def parseFldHeader (header : List Char) : Except Fault (Option (List (List Char × List Char))) :=
  parseLines (header.count '\n') (strtokLines header) []

/-! ## What the header says -/

def strip (text : List Char) : List Char := (text.rdropWhile isSpace).dropWhile isSpace

/-- A line without its comment and the blanks around it. -/
def content (line : List Char) : List Char := strip (killComments line)

/-- The texts before and after the first equals sign. -/
def linePair (line : List Char) : Option (List Char × List Char) :=
  if content line = [] then none
  else some (strip ((content line).takeWhile (· ≠ '=')), strip ((content line).dropWhile (· ≠ '=')).tail)

def headerPairs (header : List Char) : List (List Char × List Char) := (header.splitOn '\n').filterMap linePair

/-- The parser stays in its memory, and it returns zero or all the pairs. -/
def ParsesSafely (header : List Char) : Prop :=
  parseFldHeader header = .ok none ∨ parseFldHeader header = .ok (some (headerPairs header))

/-! ## Kinds of lines -/

def isTokenChar (c : Char) : Bool := !isSpace c && c ≠ '='

/-- A single word without an equals sign. -/
def Bare (line : List Char) : Prop := content line ≠ [] ∧ (content line).dropWhile isTokenChar = []

/-- A line whose first word is followed by something other than an equals sign. -/
def Rejected (line : List Char) : Prop := (content line).dropWhile isTokenChar ≠ [] ∧
  (((content line).dropWhile isTokenChar).dropWhile isSpace).head? ≠ some '='

instance : DecidablePred Bare := fun _ => inferInstanceAs (Decidable (_ ∧ _))

instance : DecidablePred Rejected := fun _ => inferInstanceAs (Decidable (_ ∧ _))

/-- The lines before the first one that is rejected. -/
def acceptedLines (header : List Char) : List (List Char) := (strtokLines header).takeWhile fun line => ¬ Rejected line

/-- No single word before a line that is rejected, and when there is no such line, a newline for each line that is not
blank. -/
def WellFormed (header : List Char) : Prop :=
  (∀ line ∈ acceptedLines header, ¬ Bare line) ∧
    ((∀ line ∈ strtokLines header, ¬ Rejected line) →
      (strtokLines header).countP (fun line => content line ≠ []) ≤ header.count '\n')

instance (header : List Char) : Decidable (ParsesSafely header) := inferInstanceAs (Decidable (_ ∨ _))

end ParFlow.AvsField
