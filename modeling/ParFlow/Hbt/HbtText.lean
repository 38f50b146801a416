import ParFlow.Hbt.HbtSuccessor
import ParFlow.Lib.TextScan

/-! `HBT_printf` and `HBT_scanf`. The elements come behind a header, which is written as comments but read as plain
numbers. -/

namespace ParFlow.Hbt

open FuelRun HeapTree HTree TextScan

variable {α : Type} {κ : Type} [LinearOrder κ]

/-! ## The writer -/

section Writer

variable (printMethod : α → List UInt8)

/-- `_HBT_printf` -/
def printElements (h : Heap (Label α)) : ℕ → Option Addr → Except Fault (List UInt8)
  | 0, _ => .error .fuel
  | _ + 1, none => .ok []
  | fuel + 1, some tree => do
    let n ← load h (some tree)
    let left ← printElements h fuel n.left
    let right ← printElements h fuel n.right
    .ok (left ++ printMethod n.val.obj ++ right)

/-- `fprintf(file, "# %d\n", n)` -/
def headerLine (n : ℕ) : List UInt8 := utf8 ['#', ' '] ++ utf8 (decimal n) ++ utf8 ['\n']

def hbtPrintf (fuel : ℕ) (T : HBT α) : Except Fault (List UInt8) := do
  let elements ← printElements printMethod T.heap fuel T.root
  .ok (headerLine T.height ++ headerLine T.num ++ elements)

end Writer

/-! ## The reader -/

section Reader

variable (compare : α → α → ℤ) (scanMethod : List UInt8 → α × List UInt8) (alloc : HBT α → Option Addr)

/-- `while (i--)` -/
def scanElements (fuel : ℕ) : ℕ → ℤ → List UInt8 → HBT α → Except Fault (HBT α)
  | 0, _, _, _ => .error .fuel
  | rounds + 1, i, file, T =>
    if i = 0 then .ok T
    else do
      let (obj, file) := scanMethod file
      let (T, _) ← hbtInsert compare fuel (alloc T) obj T
      scanElements fuel rounds (i - 1) file T

/-- `none` is the abort of the program. -/
def hbtScanf (fuel : ℕ) (file : List UInt8) (T : HBT α) : Except Fault (Option (HBT α)) :=
  match scanNumber file with
  | none => .ok none
  | some (_, file) =>
    match scanNumber file with
    | none => .ok none
    | some (num, file) => do
      let T ← scanElements compare scanMethod alloc fuel fuel num file T
      .ok (some T)

end Reader

/-! ## The header -/

section Header

variable {compare : α → α → ℤ} {key : α → κ} {printMethod : α → List UInt8} {scanMethod : List UInt8 → α × List UInt8}
  {alloc : HBT α → Option Addr} {T T₀ : HBT α} {t : ElementTree α}

/-- The scan method reads what the print method writes. -/
def ScansPrinted (printMethod : α → List UInt8) (scanMethod : List UInt8 → α × List UInt8) : Prop :=
  ∀ obj file, scanMethod (printMethod obj ++ file) = (obj, file)

/-- The text of the tree is scanned into a tree of the same elements. -/
def ScansBack (compare : α → α → ℤ) (key : α → κ) (printMethod : α → List UInt8) (scanMethod : List UInt8 → α × List UInt8)
    (alloc : HBT α → Option Addr) (T : HBT α) (t : ElementTree α) (T₀ : HBT α) : Prop :=
  ∃ text T' t', Returns (fun fuel => hbtPrintf printMethod fuel T) text ∧
    Returns (fun fuel => hbtScanf compare scanMethod alloc fuel text T₀) (some T') ∧ Valid key T' t' ∧
    inOrder t' = inOrder t ∧ T'.num = T.num

theorem printElements_spec {h : Heap (Label α)} (hr : Rep h t) {fuel : ℕ} (hfuel : t.height < fuel) :
    printElements printMethod h fuel t.ptr = .ok ((inOrder t).flatMap printMethod) := by
  induction t generalizing fuel with
  | nil =>
    obtain ⟨n, rfl⟩ : ∃ n, fuel = n + 1 := ⟨fuel - 1, by omega⟩
    rfl
  | node a l v r ihl ihr =>
    obtain ⟨n, rfl⟩ : ∃ n, fuel = n + 1 := ⟨fuel - 1, by omega⟩
    obtain ⟨ha, hl, hr⟩ := hr
    rw [height] at hfuel
    have hleft : printElements printMethod h n l.ptr = .ok ((inOrder l).flatMap printMethod) := ihl hl (by omega)
    have hright : printElements printMethod h n r.ptr = .ok ((inOrder r).flatMap printMethod) := ihr hr (by omega)
    simp only [ptr_node, printElements, load_eq ha, bind, Except.bind, hleft, hright]
    show _ = Except.ok ((inOrder l ++ v.obj :: inOrder r).flatMap printMethod)
    rw [List.flatMap_append, List.flatMap_cons, List.append_assoc]

theorem hbtPrintf_returns (hs : Stores T t) : Returns (fun fuel => hbtPrintf printMethod fuel T)
    (headerLine T.height ++ headerLine T.num ++ (inOrder t).flatMap printMethod) := by
  use t.height + 1
  intro fuel hf
  have hprint : printElements printMethod T.heap fuel t.ptr = .ok ((inOrder t).flatMap printMethod) :=
    printElements_spec hs.rep hf
  rw [← hs.root] at hprint
  simp only [hbtPrintf, hprint, bind, Except.bind]

/-- The first line begins with no number. -/
theorem scanNumber_headerLine (n : ℕ) (rest : List UInt8) : scanNumber (headerLine n ++ rest) = none := by
  have hhead : headerLine n ++ rest = 35 :: (32 :: (utf8 (decimal n) ++ utf8 ['\n']) ++ rest) := rfl
  rw [hhead]
  rfl

/-- Every text that is written makes the scan abort. -/
theorem printed_not_scanned (compare : α → α → ℤ) (key : α → κ) (printMethod : α → List UInt8)
    (scanMethod : List UInt8 → α × List UInt8) (alloc : HBT α → Option Addr) (T : HBT α) (t : ElementTree α)
    (hv : Valid key T t) (T₀ : HBT α) :
    (∃ text, Returns (fun fuel => hbtPrintf printMethod fuel T) text ∧
      Returns (fun fuel => hbtScanf compare scanMethod alloc fuel text T₀) none) ∧
    ¬ ScansBack compare key printMethod scanMethod alloc T t T₀ := by
  have hprint : Returns (fun fuel => hbtPrintf printMethod fuel T) _ := hbtPrintf_returns hv.stores
  have habort : Returns (fun fuel => hbtScanf compare scanMethod alloc fuel
      (headerLine T.height ++ headerLine T.num ++ (inOrder t).flatMap printMethod) T₀) none := by
    use 0
    intro fuel _
    rw [List.append_assoc]
    simp only [hbtScanf, scanNumber_headerLine]
  constructor
  · exact ⟨_, hprint, habort⟩
  · rintro ⟨text, T', t', htext, hscan, -⟩
    rw [htext.unique hprint] at hscan
    exact Option.some_ne_none T' (hscan.unique habort)

end Header

/-! ## Trees of bytes -/

def byteCompare (a b : UInt8) : ℤ := a.toNat - b.toNat

def printByte (b : UInt8) : List UInt8 := [b]

def scanByte (file : List UInt8) : UInt8 × List UInt8 := (file.headD 0, file.tail)

theorem scansPrinted_byte : ScansPrinted printByte scanByte := fun _ _ => rfl

theorem fourTree_not_scanned : ∃ text, Returns (fun fuel => hbtPrintf (fun _ => []) fuel (buildInts [2, 1, 4, 3])) text ∧
    Returns (fun fuel => hbtScanf intCompare (fun file => (0, file)) (fun _ => none) fuel text (hbtNew false)) none :=
  (printed_not_scanned intCompare id (fun _ => []) (fun file => (0, file)) (fun _ => none) _ _ valid_fourTree _).1

/-- The empty tree is not scanned back. -/
theorem not_all_scansBack : ¬ ∀ (printMethod : UInt8 → List UInt8) (scanMethod : List UInt8 → UInt8 × List UInt8)
    (alloc : HBT UInt8 → Option Addr) (T : HBT UInt8) (t : ElementTree UInt8), ScansPrinted printMethod scanMethod →
    Valid UInt8.toNat T t → ScansBack byteCompare UInt8.toNat printMethod scanMethod alloc T t (hbtNew false) := by
  intro h
  obtain ⟨text, T', t', htext, ⟨N, hN⟩, -⟩ := h printByte scanByte (fun _ => some 0) (hbtNew false) .nil scansPrinted_byte
    (valid_new false)
  rw [htext.unique (hbtPrintf_returns (t := .nil) ⟨rfl, trivial, List.nodup_nil⟩)] at hN
  have hscan : hbtScanf byteCompare scanByte (fun _ => some 0) N (headerLine 0 ++ headerLine 0 ++ []) (hbtNew false) =
      .ok none := rfl
  exact Option.some_ne_none T' (Except.ok.inj ((hN N le_rfl).symm.trans hscan))

end ParFlow.Hbt
