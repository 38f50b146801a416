import ParFlow.Lib.TextScan
import ParFlow.Hbt.HbtMemory
import ParFlow.Lib.NumberText
import ParFlow.Lib.OrderedDict
import ParFlow.Lib.FuelRun

/-! The database of the input: written as text with the length of each key and value before it, and read back
with formatted input into a height balanced tree. -/

namespace ParFlow

open TextScan Hbt

/-! ## The writer -/

def pfidbField (text : List Char) : List Char := decimal text.length ++ ['\n'] ++ text ++ ['\n']

/-- The text of the file. The lengths are those of the texts in characters. -/
def writeDictAsPfidb (dictObj : List (List Char × List Char)) : List Char :=
  decimal dictObj.length ++ ['\n'] ++ dictObj.flatMap fun kv => pfidbField kv.1 ++ pfidbField kv.2

/-! ## The reader -/

/-- One integer of `amps_ScanInt`; `none` is the abort of the run. -/
def ampsScanInt (bytes : List UInt8) : Option (ℤ × List UInt8) := scanInt bytes

def ampsScanChar (len : ℤ) (bytes : List UInt8) : Option (List UInt8 × List UInt8) :=
  if bytes.length < len.toNat then none else some (bytes.take len.toNat, bytes.drop len.toNat)

def idbMaxKeyLen : ℤ := 2048

def idbMaxValueLen : ℤ := 65536

/-- The bytes up to the first zero. -/
def cString (bytes : List UInt8) : List UInt8 := bytes.takeWhile (· ≠ 0)

theorem zero_notMem_cString (bytes : List UInt8) : 0 ∉ cString bytes := by
  intro h
  simpa using List.mem_takeWhile_imp h

structure IDBEntry where
  key : List UInt8
  value : List UInt8
  key_no_zero : 0 ∉ key

def idbNewEntry (key value : List UInt8) : IDBEntry := ⟨cString key, cString value, zero_notMem_cString key⟩

/-- `strcmp`, with the zero at the end of a string taken as its next byte. -/
def strcmp : List UInt8 → List UInt8 → ℤ
  | [], [] => 0
  | [], b :: _ => -(b.toNat : ℤ)
  | a :: _, [] => a.toNat
  | a :: as, b :: bs => if a = b then strcmp as bs else (a.toNat : ℤ) - b.toNat

def idbCompare (a b : IDBEntry) : ℤ := strcmp a.key b.key

/-- The entry that the invoice describes. A length that does not fit its buffer ends the run, either with the
error about the value or by writing outside the buffer. -/
def idbReadEntry (bytes : List UInt8) : Option (IDBEntry × List UInt8) := do
  let (keyLen, bytes) ← ampsScanInt bytes
  let (key, bytes) ← ampsScanChar keyLen bytes
  let (valueLen, bytes) ← ampsScanInt bytes
  let (value, bytes) ← ampsScanChar valueLen bytes
  if keyLen < 0 ∨ keyLen + 1 > idbMaxKeyLen ∨ valueLen < 0 ∨ valueLen + 1 > idbMaxValueLen then none
  else some (idbNewEntry key value, bytes)

def idbReadEntries : ℕ → List UInt8 → Option (List IDBEntry)
  | 0, _ => some []
  | n + 1, bytes => do
    let (entry, bytes) ← idbReadEntry bytes
    let entries ← idbReadEntries n bytes
    some (entry :: entries)

/-- The entries that `IDB_NewDB` inserts into the tree, in their order. -/
def idbEntries (bytes : List UInt8) : Option (List IDBEntry) := do
  let (numEntries, bytes) ← ampsScanInt bytes
  idbReadEntries numEntries.toNat bytes

/-- `IDB_NewDB` returns the database, when the allocations return memory that is not in use. -/
def IdbNewDB (bytes : List UInt8) (db : HBT IDBEntry) : Prop :=
  ∃ entries, idbEntries bytes = some entries ∧ Inserted idbCompare entries db

end ParFlow

/-! Values of the input database with a default. A key that is missing is inserted with the text of the default. -/

namespace ParFlow

open TextScan TextStream NumberText Hbt FuelRun HeapTree

/-- The bytes of a string. -/
abbrev CText := { bytes : List UInt8 // 0 ∉ bytes }

def cText (bytes : List UInt8) : CText := ⟨cString bytes, zero_notMem_cString bytes⟩

/-- The entry that a key is looked up with. -/
def lookupEntry (key : CText) : IDBEntry := ⟨key.1, [], key.2⟩

/-! ## The calls -/

/-- The error that ends the run when a stored value is not of the type that is asked for. -/
def notValid (type : String) (key : CText) (value : List UInt8) : List UInt8 :=
  utf8 "Error: The key <".toList ++ key.1 ++ utf8 "> is not a valid ".toList ++ utf8 type.toList ++
    utf8 ": value is <".toList ++ value ++ utf8 ">\n".toList

section Default

variable {β : Type} (scan : CText → List UInt8 → Except (List UInt8) β) (print : β → List UInt8)

/-- The stored value, or the default when its text was inserted. What the insertion returns is not looked at. -/
def idbGetDefault (fuel : ℕ) (cell : Option Addr) (database : HBT IDBEntry) (key : CText) (defaultValue : β) :
    Except Fault (Except (List UInt8) (β × HBT IDBEntry)) := do
  let result ← hbtLookup idbCompare fuel (lookupEntry key) database
  match result with
  | some result => .ok ((scan key result.value).map fun value => (value, database))
  | none =>
    let (database, _) ← hbtInsert idbCompare fuel cell (idbNewEntry key.1 (print defaultValue)) database
    .ok (.ok (defaultValue, database))

end Default

/-- The number that `sscanf` finds. -/
def scanValue {β : Type} (read : List UInt8 → Option (β × List UInt8)) (type : String) (key : CText)
    (value : List UInt8) : Except (List UInt8) β :=
  match read value with
  | some (x, _) => .ok x
  | none => .error (notValid type key value)

def idbGetStringDefault := idbGetDefault (fun _ value => .ok (cText value)) fun s : CText => s.1

def idbGetDoubleDefault := idbGetDefault (scanValue takeDouble "double") fun x => utf8 (formatFixed 6 x)

def idbGetIntDefault := idbGetDefault (scanValue scanNumber "integer") fun n => utf8 (intText n)

/-! ## Sequences of calls -/

inductive IdbKind where
  | string | double | int
  deriving DecidableEq, Repr

inductive IdbValue where
  | string (s : CText) | double (x : ℚ) | int (n : ℤ)
  deriving DecidableEq

def IdbValue.kind : IdbValue → IdbKind
  | string _ => .string
  | double _ => .double
  | int _ => .int

/-- The kind of the default says which function is called. -/
structure IdbCall where
  key : CText
  default : IdbValue

def idbCall (fuel : ℕ) (cell : Option Addr) (database : HBT IDBEntry) (call : IdbCall) :
    Except Fault (Except (List UInt8) (IdbValue × HBT IDBEntry)) :=
  match call.default with
  | .string s => do
    let result ← idbGetStringDefault fuel cell database call.key s
    .ok (result.map fun r => (.string r.1, r.2))
  | .double x => do
    let result ← idbGetDoubleDefault fuel cell database call.key x
    .ok (result.map fun r => (.double r.1, r.2))
  | .int n => do
    let result ← idbGetIntDefault fuel cell database call.key n
    .ok (result.map fun r => (.int r.1, r.2))

/-- The calls of a run with what they returned. An allocation returns memory that is not in use. -/
inductive IdbRun (allowed : HBT IDBEntry → Option Addr → IdbCall → Prop) (db₀ : HBT IDBEntry) :
    List (IdbCall × IdbValue) → HBT IDBEntry → Prop where
  | start : IdbRun allowed db₀ [] db₀
  | call {history : List (IdbCall × IdbValue)} {db db' : HBT IDBEntry} {cell : Option Addr} {c : IdbCall} {v : IdbValue}
      (h : IdbRun allowed db₀ history db) (hcell : ∀ a, cell = some a → db.heap a = none) (hallowed : allowed db cell c)
      (hret : Returns (fun fuel => idbCall fuel cell db c) (.ok (v, db'))) :
      IdbRun allowed db₀ (history ++ [(c, v)]) db'

end ParFlow

/-! Export of the keys of a run as nested maps, and the way back to a flat map. A key is a text with dots;
a key that is a value and the start of other keys keeps its value under a name of its own in its map. -/

namespace ParFlow

open OrderedDict

abbrev Str := List Char

/-- The values that a map can hold. Of the values that can be iterated over only the texts of their items matter. -/
inductive PyValue (ν : Type*) where
  | none
  | str (text : Str)
  | number (x : ν)
  | seq (texts : List Str)
  | dict (items : List (Str × PyValue ν))

abbrev Dict (ν : Type*) := List (Str × PyValue ν)

variable {ν : Type*}

def dot : Str := ['.']

def valueKey : Str := "_value_".toList

/-- `sort_dict` without a key function. -/
def sortDict (d : Dict ν) : Dict ν := sortKeys d

/-! ## Export -/

/-- The map after `change` was made in the container that `get_or_create_dict` returns, and the overridden keys.
`before` is the part of the key path that leads to the map. -/
def getOrCreateDict (change : Dict ν → Dict ν) (before : List Str) : List Str → Dict ν → Dict ν → Dict ν × Dict ν
  | [], root, overridden => (change root, overridden)
  | key :: rest, root, overridden =>
    match get key root with
    | .none =>
      let (sub, overridden) := getOrCreateDict change (before ++ [key]) rest [] overridden
      (assign key (.dict sub) root, overridden)
    | some (.dict sub) =>
      let (sub, overridden) := getOrCreateDict change (before ++ [key]) rest sub overridden
      (assign key (.dict sub) root, overridden)
    | some value =>
      let overridden := assign (dot.intercalate (before ++ [key])) value overridden
      let (sub, overridden) := getOrCreateDict change (before ++ [key]) rest [] overridden
      (assign key (.dict sub) root, overridden)

/-- The first loop of `write_dict_as_yaml`, for one key. -/
def putKey (state : Dict ν × Dict ν) (item : Str × PyValue ν) : Dict ν × Dict ν :=
  let keysPath := item.1.splitOn '.'
  getOrCreateDict (assign (keysPath.getLast?.getD []) item.2) [] keysPath.dropLast state.1 state.2

/-- The second loop of `write_dict_as_yaml`, for one key. -/
def pushValue (root : Dict ν) (item : Str × PyValue ν) : Dict ν :=
  (getOrCreateDict (assign valueKey item.2) [] (item.1.splitOn '.') root []).1

/-- The map that `write_dict_as_yaml` dumps. -/
def yamlObject (dictObj : Dict ν) : Dict ν :=
  let (yamlObj, overridden) := dictObj.foldl putKey ([], [])
  sortDict (overridden.foldl pushValue yamlObj)

/-- The map that `write_dict` dumps for the extensions of YAML. -/
def writeDict (dictObj : Dict ν) : Dict ν := yamlObject (sortDict dictObj)

/-! ## Import -/

/-- The first character is taken without a test, so that an empty name is an error. -/
def isPrivateKey : Str → Option Bool
  | [] => .none
  | c :: rest => some (c = '_' ∧ (c :: rest).getLast? = some '_')

def toStrDictFormat : PyValue ν → PyValue ν
  | .seq texts => .str ([' '].intercalate texts)
  | value => value

def extractKeysFromDict (dictToFill : Dict ν) (dictObj : Dict ν) (parentNamespace : Str) : Option (Dict ν) :=
  match dictObj with
  | [] => some dictToFill
  | (key, value) :: rest =>
    if parentNamespace ≠ [] ∧ key = valueKey then
      extractKeysFromDict (assign parentNamespace value dictToFill) rest parentNamespace
    else
      let fullQualifiedKey := if parentNamespace ≠ [] then parentNamespace ++ dot ++ key else key
      match value with
      | .none => extractKeysFromDict dictToFill rest parentNamespace
      | .dict items =>
        (isPrivateKey key).bind fun isPrivate =>
          if isPrivate then extractKeysFromDict dictToFill rest parentNamespace
          else
            (extractKeysFromDict dictToFill items fullQualifiedKey).bind fun dictToFill =>
              extractKeysFromDict dictToFill rest parentNamespace
      | value =>
        (isPrivateKey key).bind fun isPrivate =>
          if isPrivate then extractKeysFromDict dictToFill rest parentNamespace
          else extractKeysFromDict (assign fullQualifiedKey (toStrDictFormat value) dictToFill) rest parentNamespace
termination_by sizeOf dictObj

def flattenHierarchicalMap (hierarchicalMap : Dict ν) : Option (Dict ν) :=
  extractKeysFromDict [] hierarchicalMap []

end ParFlow

/-! Arrays of names (`input_database.c`): a text is cut into names at white space, in one pass that counts them and
another one that copies them. -/

namespace ParFlow

open FuelRun

/-- The characters of `NA_WHITE_SPACE`. -/
def naWhiteSpace (c : Char) : Bool := c = ' ' ∨ c = '\t' ∨ c = '\n'

/-- One call of `strtok`, with the text that is left for the next call; `none` is the null pointer. -/
def strtok (text : Str) : Option (Str × Str) :=
  let text := text.dropWhile naWhiteSpace
  if text = [] then none
  else some (text.takeWhile fun c => !naWhiteSpace c, (text.dropWhile fun c => !naWhiteSpace c).tail)

theorem length_of_strtok {text name rest : Str} (h : strtok text = some (name, rest)) : rest.length < text.length := by
  unfold strtok at h
  dsimp only at h
  split_ifs at h with hnil
  obtain ⟨-, rfl⟩ := Prod.mk.inj (Option.some.inj h)
  have hskip := (text.dropWhile_suffix naWhiteSpace).length_le
  have hhead := List.head_dropWhile_not naWhiteSpace hnil
  generalize text.dropWhile naWhiteSpace = text' at hnil hskip hhead
  obtain ⟨c, text', rfl⟩ := List.exists_cons_of_ne_nil hnil
  have hsolid : (!naWhiteSpace c) = true := by
    rw [List.head_cons] at hhead
    rw [hhead]
    rfl
  have hdrop := (text'.dropWhile_suffix fun c => !naWhiteSpace c).length_le
  rw [List.dropWhile_cons_of_pos (p := fun c => !naWhiteSpace c) hsolid, List.length_tail]
  rw [List.length_cons] at hskip
  omega

/-- The calls of `strtok` up to the one that returns the null pointer. -/
def strtokAll (text : Str) : List Str :=
  match _h : strtok text with
  | none => []
  | some (name, rest) => name :: strtokAll rest
termination_by text.length
decreasing_by exact length_of_strtok _h

/-- A `string` of `none` is the null pointer. -/
structure NameArray where
  num : ℕ
  names : List Str
  string : Option Str

def naNewNameArray (string : Str) : NameArray :=
  match strtok string with
  | none => ⟨0, [], none⟩
  | some (_, rest) => ⟨1 + (strtokAll rest).length, strtokAll string, some string⟩

/-- The length of `string` is taken before anything else. -/
def naAppendToArray (nameArray : NameArray) (string : Str) : Except Fault NameArray :=
  match nameArray.string with
  | none => .error .null
  | some old =>
    let bothString := old ++ ' ' :: string
    match strtok bothString with
    | none => .ok nameArray
    | some (_, rest) => .ok ⟨1 + (strtokAll rest).length, strtokAll bothString, some bothString⟩

def naNameToIndex (nameArray : NameArray) (name : Str) : ℤ :=
  match (List.range nameArray.num).find? fun i => nameArray.names[i]? = some name with
  | some i => i
  | none => -1

end ParFlow
