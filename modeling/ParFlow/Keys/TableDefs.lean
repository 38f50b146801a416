import ParFlow.Lib.OrderedDict
import ParFlow.Lib.PyText

/-! Tables of properties: `TableToProperties` reads a table line by line, with the properties in its first line or in its
first column. -/

namespace ParFlow.TableToProperties

open OrderedDict PyText

/-! ## Definitions of keys -/

inductive ValueType where
  | float
  | int
  | str
  deriving DecidableEq

inductive Value (R : Type) where
  | float (x : R)
  | int (n : ℤ)
  | str (text : List Char)

/-- `__builtins__[value_type](str_value)` -/
def convert {R : Type} (float : List Char → Option R) : ValueType → List Char → Option (Value R)
  | .float, text => (float text).map .float
  | .int, text => (readInt text).map .int
  | .str, text => some (.str text)

structure KeyDef where
  aliases : List (List Char)
  type : ValueType
  addon : List (List Char × List Char)
  register : Option (List Char)

/-- `self.alias_to_pfkey[token]`, with the definition of the key. -/
def aliasToPfkey (definition : List (List Char × KeyDef)) (token : List Char) : Option (List Char × KeyDef) :=
  definition.find? fun kd => token ∈ kd.2.aliases

/-- `self.definition['key']['alias']` -/
def keyAlias (definition : List (List Char × KeyDef)) : List (List Char) :=
  ((get "key".toList definition).map KeyDef.aliases).getD []

/-! ## The builder -/

/-- Either the properties of a unit or the value of a global key. -/
inductive Entry (R : Type) where
  | unit (props : List (List Char × Value R))
  | value (text : List Char)

structure TableState (R : Type) where
  output : List (List Char × Entry R)
  nameRegistration : List (List Char × Finset (List Char))
  columnIndex : List (List Char × ℕ)
  propsInRowHeader : Option Bool

structure Builder (R : Type) where
  state : TableState R
  tableComments : List (List Char)

def newBuilder (R : Type) : Builder R := ⟨⟨[], [], [], some true⟩, []⟩

inductive Fault where
  | index
  | key
  | value
  | type
  | format

def lookup {α : Type} (fault : Fault) : Option α → Except Fault α
  | some a => .ok a
  | none => .error fault

/-- The names for which `hasattr` holds of every dictionary. -/
def dictAttributes : List (List Char) :=
  ["__class__", "__class_getitem__", "__contains__", "__delattr__", "__delitem__", "__dir__", "__doc__", "__eq__",
    "__format__", "__ge__", "__getattribute__", "__getitem__", "__getstate__", "__gt__", "__hash__", "__init__",
    "__init_subclass__", "__ior__", "__iter__", "__le__", "__len__", "__lt__", "__ne__", "__new__", "__or__", "__reduce__",
    "__reduce_ex__", "__repr__", "__reversed__", "__ror__", "__setattr__", "__setitem__", "__sizeof__", "__str__",
    "__subclasshook__", "clear", "copy", "fromkeys", "get", "items", "keys", "pop", "popitem", "setdefault", "update",
    "values"].map String.toList

section Process

variable {R : Type}

/-- A local key goes to the unit, and a global one is set if it is new. -/
def setAddon (s : List (List Char × Entry R) × List (List Char × Value R)) (addon : List Char × List Char) :
    List (List Char × Entry R) × List (List Char × Value R) :=
  if addon.1.head? = some '.' then (s.1, assign addon.1.tail (.str addon.2) s.2)
  else if addon.1 ∈ keys s.1 then s
  else (assign addon.1 (.value addon.2) s.1, s.2)

/-- What a line with the properties of a unit builds up. -/
structure RowState (R : Type) where
  output : List (List Char × Entry R)
  data : List (List Char × Value R)
  registrations : List (List Char)

variable (definition : List (List Char × KeyDef)) (float : List Char → Option R)

def rowCell (tokens : List (List Char)) (s : RowState R) (col : List Char × ℕ) : Except Fault (RowState R) := do
  let strValue ← lookup .index tokens[col.2]?
  if strValue = ['-'] then .ok s
  else
    let (key, keyDef) ← lookup .key (aliasToPfkey definition col.1)
    let value ← lookup .value (convert float keyDef.type strValue)
    let (output, data) := keyDef.addon.foldl setAddon (s.output, assign key value s.data)
    .ok ⟨output, data, s.registrations ++ keyDef.register.toList⟩

/-- A line of which the key column has the name of a unit. -/
def unitLine (s : TableState R) (tokens : List (List Char)) : Except Fault (TableState R) := do
  let row ← s.columnIndex.foldlM (rowCell definition float tokens) ⟨s.output, [], []⟩
  match ← lookup .key (get "key".toList row.data) with
  | .str unitName =>
    let output := assign unitName (.unit (row.data.filter fun kv => kv.1 ≠ "key".toList)) row.output
    let registration := if unitName ∈ dictAttributes then s.nameRegistration else assign unitName ∅ s.nameRegistration
    let names ← lookup .key (get unitName registration)
    .ok { s with output, nameRegistration := assign unitName (names ∪ row.registrations.toFinset) registration }
  | _ => .error .type

/-- The value of a property for one unit. -/
def unitCell (tokens : List (List Char)) (mainKey key : List Char) (type : ValueType) (data : List (List Char × Value R))
    (registrations : List (List Char)) (s : TableState R) (col : List Char × ℕ) : Except Fault (TableState R) :=
  if col.1 = mainKey then .ok s
  else do
    let container ← lookup .key (get col.1 s.output)
    let valueStr ← lookup .index tokens[col.2]?
    if valueStr = ['-'] then .ok s
    else
      let value ← lookup .value (convert float type valueStr)
      match container with
      | .value _ => .error .type
      | .unit props =>
        let props := data.foldl (fun props kv => assign kv.1 kv.2 props) (assign key value props)
        let output := assign col.1 (.unit props) s.output
        if registrations = [] then .ok { s with output }
        else
          let names ← lookup .key (get col.1 s.nameRegistration)
          .ok { s with output, nameRegistration := assign col.1 (names ∪ registrations.toFinset) s.nameRegistration }

/-- A line of which the key column has the name of a property. -/
def propLine (s : TableState R) (tokens : List (List Char)) : Except Fault (TableState R) := do
  let mainKey := s.columnIndex.foldl (fun mainKey col => if col.1 ∈ keyAlias definition then col.1 else mainKey) "key".toList
  let column ← lookup .key (get mainKey s.columnIndex)
  let propAlias ← lookup .index tokens[column]?
  let (key, keyDef) ← lookup .key (aliasToPfkey definition propAlias)
  let (output, data) := keyDef.addon.foldl setAddon (s.output, [])
  s.columnIndex.foldlM (unitCell float tokens mainKey key keyDef.type data keyDef.register.toList) { s with output }

/-- `_process_data_line` -/
def processDataLine (s : TableState R) (tokens : List (List Char)) : Except Fault (TableState R) :=
  if tokens = [] ∨ tokens.head? = some ['#'] then .ok s
  else if s.propsInRowHeader = some true then unitLine definition float s tokens
  else propLine definition float s tokens

def indexColumns (columnIndex : List (List Char × ℕ)) (tokens : List (List Char)) : List (List Char × ℕ) :=
  tokens.zipIdx.foldl (fun columnIndex token => assign token.1 token.2 columnIndex) columnIndex

/-- Empty containers for the units of the first line. -/
def prefill (s : TableState R) : TableState R :=
  let units := (keys s.columnIndex).filter fun name => name ∉ keyAlias definition
  { s with
    output := units.foldl (fun output name => assign name (.unit []) output) s.output
    nameRegistration := units.foldl (fun registration name => assign name ∅ registration) s.nameRegistration }

/-- The orientation of a table, from its first line. -/
def orientation (s : TableState R) (tokens : List (List Char)) : Except Fault (TableState R) :=
  let s := { s with columnIndex := indexColumns s.columnIndex tokens }
  let found := tokens.filter fun token => (aliasToPfkey definition token).isSome
  let notFound := tokens.filter fun token => (aliasToPfkey definition token).isNone
  if notFound = [] then .ok { s with propsInRowHeader := some true }
  else if 1 < found.length ∧ 1 < notFound.length then .error .format
  else if found.length = 1 then .ok (prefill definition { s with propsInRowHeader := some false })
  else .error .format

/-- `_process_first_line` -/
def processFirstLine (b : Builder R) (tokens : List (List Char)) : Except Fault (Bool × Builder R) :=
  if tokens = [] then .ok (false, b)
  else if tokens.head? = some ['#'] then
    .ok (false, { b with tableComments := b.tableComments ++ [[' '].intercalate tokens] })
  else (orientation definition b.state tokens).map fun state => (true, { b with state })

/-- One round of a loader, which knows whether the first line is behind it. -/
def readTokens (s : Bool × Builder R) (tokens : List (List Char)) : Except Fault (Bool × Builder R) :=
  if s.1 then (processDataLine definition float s.2.state tokens).map fun state => (true, { s.2 with state })
  else processFirstLine definition s.2 tokens

def loadTokens (b : Builder R) (lines : List (List (List Char))) : Except Fault (Builder R) :=
  (lines.foldlM (readTokens definition float) (false, b)).map Prod.snd

/-- `_csv_line_tokenizer` -/
def csvTokens (line : List Char) : List (List Char) := (line.splitOn ',').map strip

/-- `_txt_line_tokenizer` -/
def txtTokens (line : List Char) : List (List Char) := split line

def loadCsvFile (b : Builder R) (text : List Char) : Except Fault (Builder R) :=
  loadTokens definition float b ((fileLines text).map csvTokens)

def loadTxtFile (b : Builder R) (text : List Char) : Except Fault (Builder R) :=
  loadTokens definition float b ((fileLines text).map txtTokens)

end Process

/-! ## Tables -/

/-- A text that stands alone in a column, whatever separates the columns. -/
def IsCell (text : List Char) : Prop := text ≠ [] ∧ ∀ c ∈ text, isSpace c = false ∧ c ≠ ','

instance (text : List Char) : Decidable (IsCell text) := inferInstanceAs (Decidable (_ ∧ _))

/-- The definitions of a reference file. `__init__` raises an exception when an alias is given twice. -/
structure TableDefinition where
  definition : List (List Char × KeyDef)
  aliases_nodup : (definition.flatMap fun kd => kd.2.aliases).Nodup
  keys_nodup : (keys definition).Nodup
  key_str : ∃ aliases, get "key".toList definition = some ⟨aliases, .str, [], none⟩
  aliases_ne_nil : ∀ kd ∈ definition, kd.2.aliases ≠ []
  aliases_cell : ∀ kd ∈ definition, ∀ token ∈ kd.2.aliases, IsCell token ∧ token.head? ≠ some '#'
  addon_local : ∀ kd ∈ definition, ∀ addon ∈ kd.2.addon, addon.1.head? = some '.' → addon.1.tail ∉ keys definition

inductive TableLine where
  | row (cells : List (List Char))
  | extra (text : List Char)

def TableLine.csv : TableLine → List Char
  | .row cells => [','].intercalate cells
  | .extra text => text

def TableLine.txt : TableLine → List Char
  | .row cells => [' '].intercalate cells
  | .extra text => text

def TableLine.row? : TableLine → Option (List (List Char))
  | .row cells => some cells
  | .extra _ => none

/-- An empty line, or a comment. -/
structure IsExtra (text : List Char) : Prop where
  blank_or_comment : (∀ c ∈ text, isSpace c) ∨ text.head? = some '#'
  line : ∀ c ∈ text, isBreak c = false

/-- A table that the builder accepts, with lines of a given kind before, between and behind its rows. -/
structure IsTable {R : Type} (definition : List (List Char × KeyDef)) (float : List Char → Option R)
    (extras : List (List Char)) (b : Builder R) (lines : List TableLine) : Prop where
  cells : ∀ cells, TableLine.row cells ∈ lines → cells ≠ [] ∧ ∀ cell ∈ cells, IsCell cell
  extras : ∀ text, TableLine.extra text ∈ lines → text ∈ extras
  accepted : ∃ c, loadTokens definition float b (lines.filterMap TableLine.row?) = .ok c

/-- Both loaders accept the lines and leave the builder in the same state. -/
def LoadersAgree {R : Type} (definition : List (List Char × KeyDef)) (float : List Char → Option R) (b : Builder R)
    (lines : List TableLine) : Prop :=
  ∃ c t, loadCsvFile definition float b (lines.flatMap fun line => line.csv ++ ['\n']) = .ok c ∧
    loadTxtFile definition float b (lines.flatMap fun line => line.txt ++ ['\n']) = .ok t ∧
    c.state.output = t.state.output ∧ c.state.nameRegistration = t.state.nameRegistration ∧
    c.state.propsInRowHeader = t.state.propsInRowHeader

/-- The sign of a comment stands alone, before the first comma and before the first white space. -/
structure StandsAlone (text : List Char) : Prop where
  csv : strip (text.takeWhile (· ≠ ',')) = ['#']
  txt : (split text).head? = some ['#']

/-! ## The keys of the subsurface -/

/-- `ref/table_keys.yaml` -/
def tableKeys : List (List Char × KeyDef) :=
  [
    ("key".toList, ⟨["key".toList, "name".toList, "Name".toList, "Key".toList], .str, [], none⟩),
    ("Perm.Value".toList, ⟨["Perm".toList, "PermValue".toList, "Perm.Value".toList],
      .float, [(".Perm.Type".toList, "Constant".toList)], some "Geom.Perm.Names".toList⟩),
    ("Perm.LambdaX".toList, ⟨["PermLambdaX".toList, "LambdaX".toList, "Perm.LambdaX".toList],
      .float, [], some "Geom.Perm.Names".toList⟩),
    ("Perm.LambdaY".toList, ⟨["PermLambdaY".toList, "LambdaY".toList, "Perm.LambdaY".toList],
      .float, [], some "Geom.Perm.Names".toList⟩),
    ("Perm.LambdaZ".toList, ⟨["PermLambdaZ".toList, "LambdaZ".toList, "Perm.LambdaZ".toList],
      .float, [], some "Geom.Perm.Names".toList⟩),
    ("Perm.GeomMean".toList, ⟨["PermGeomMean".toList, "GeomMean".toList, "Perm.GeomMean".toList],
      .float, [], some "Geom.Perm.Names".toList⟩),
    ("Perm.Seed".toList, ⟨["PermSeed".toList, "Seed".toList, "Perm.Seed".toList], .int, [], some "Geom.Perm.Names".toList⟩),
    ("Perm.NumLines".toList, ⟨["PermNumLines".toList, "NumLines".toList, "Perm.NumLines".toList],
      .int, [(".Perm.Type".toList, "TurnBands".toList)], some "Geom.Perm.Names".toList⟩),
    ("Perm.RZeta".toList, ⟨["PermRZeta".toList, "RZeta".toList, "Perm.RZeta".toList],
      .float, [(".Perm.Type".toList, "TurnBands".toList)], some "Geom.Perm.Names".toList⟩),
    ("Perm.KMax".toList, ⟨["PermKMax".toList, "KMax".toList, "Perm.KMax".toList],
      .float, [(".Perm.Type".toList, "TurnBands".toList)], some "Geom.Perm.Names".toList⟩),
    ("Perm.DelK".toList, ⟨["PermDelK".toList, "DelK".toList, "Perm.DelK".toList],
      .float, [(".Perm.Type".toList, "TurnBands".toList)], some "Geom.Perm.Names".toList⟩),
    ("Perm.MaxNPts".toList, ⟨["PermMaxNPts".toList, "MaxNPts".toList, "Perm.MaxNPts".toList],
      .int, [(".Perm.Type".toList, "ParGauss".toList)], some "Geom.Perm.Names".toList⟩),
    ("Perm.MaxCpts".toList, ⟨["PermMaxCpts".toList, "MaxCpts".toList, "Perm.MaxCpts".toList],
      .int, [(".Perm.Type".toList, "ParGauss".toList)], some "Geom.Perm.Names".toList⟩),
    ("Perm.LogNormal".toList, ⟨["PermLogNormal".toList, "LogNormal".toList, "Perm.LogNormal".toList],
      .str, [], some "Geom.Perm.Names".toList⟩),
    ("Perm.StratType".toList, ⟨["PermStratType".toList, "StratType".toList, "Perm.StratType".toList],
      .str, [], some "Geom.Perm.Names".toList⟩),
    ("Perm.LowCutoff".toList, ⟨["PermLowCutoff".toList, "LowCutoff".toList, "Perm.LowCutoff".toList],
      .float, [], some "Geom.Perm.Names".toList⟩),
    ("Perm.HighCutoff".toList, ⟨["PermHighCutoff".toList, "HighCutoff".toList, "Perm.HighCutoff".toList],
      .float, [], some "Geom.Perm.Names".toList⟩),
    ("Perm.MaxSearchRad".toList, ⟨["PermMaxSearchRad".toList, "MaxSearchRad".toList, "Perm.MaxSearchRad".toList],
      .float, [], some "Geom.Perm.Names".toList⟩),
    ("Porosity.Value".toList, ⟨["Porosity".toList, "PorosityValue".toList, "Porosity.Value".toList],
      .float, [(".Porosity.Type".toList, "Constant".toList)], some "Geom.Porosity.GeomNames".toList⟩),
    ("SpecificStorage.Value".toList,
      ⟨["SpecStorage".toList, "SpecificStorage".toList, "SpecificStorageValue".toList, "SpecificStorage.Value".toList],
      .float, [("SpecificStorage.Type".toList, "Constant".toList)], some "SpecificStorage.GeomNames".toList⟩),
    ("RelPerm.Value".toList, ⟨["RelPerm".toList, "RelPermValue".toList, "RelPerm.Value".toList],
      .float, [("Phase.RelPerm.Type".toList, "Constant".toList)], some "Phase.RelPerm.GeomNames".toList⟩),
    ("RelPerm.Alpha".toList, ⟨["RelPermAlpha".toList, "Alpha".toList, "RelPerm.Alpha".toList],
      .float, [("Phase.RelPerm.Type".toList, "VanGenuchten".toList)], some "Phase.RelPerm.GeomNames".toList⟩),
    ("RelPerm.N".toList, ⟨["RelPermN".toList, "N".toList, "RelPerm.N".toList],
      .float, [("Phase.RelPerm.Type".toList, "VanGenuchten".toList)], some "Phase.RelPerm.GeomNames".toList⟩),
    ("RelPerm.NumSamplePoints".toList,
      ⟨["RelPermNumSamplePoints".toList, "NumSamplePoints".toList, "RelPerm.NumSamplePoints".toList],
      .int, [("Phase.RelPerm.Type".toList, "VanGenuchten".toList)], some "Phase.RelPerm.GeomNames".toList⟩),
    ("RelPerm.MinPressureHead".toList,
      ⟨["RelPermMinPressureHead".toList, "MinPressureHead".toList, "RelPerm.MinPressureHead".toList],
      .float, [("Phase.RelPerm.Type".toList, "VanGenuchten".toList)], some "Phase.RelPerm.GeomNames".toList⟩),
    ("RelPerm.A".toList, ⟨["RelPermA".toList, "A".toList, "RelPerm.A".toList],
      .float, [("Phase.RelPerm.Type".toList, "Haverkamp".toList)], some "Phase.RelPerm.GeomNames".toList⟩),
    ("RelPerm.Gamma".toList, ⟨["RelPermGamma".toList, "Gamma".toList, "RelPerm.Gamma".toList],
      .float, [("Phase.RelPerm.Type".toList, "Haverkamp".toList)], some "Phase.RelPerm.GeomNames".toList⟩),
    ("RelPerm.Degree".toList, ⟨["RelPermDegree".toList, "Degree".toList, "RelPerm.Degree".toList],
      .int, [("Phase.RelPerm.Type".toList, "Polynomial".toList)], some "Phase.RelPerm.GeomNames".toList⟩),
    ("Saturation.Value".toList, ⟨["Sat".toList, "SatValue".toList, "Saturation.Value".toList],
      .float, [("Phase.Saturation.Type".toList, "Constant".toList)], some "Phase.Saturation.GeomNames".toList⟩),
    ("Saturation.Alpha".toList, ⟨["SatAlpha".toList, "Saturation.Alpha".toList],
      .float, [("Phase.Saturation.Type".toList, "VanGenuchten".toList)], some "Phase.Saturation.GeomNames".toList⟩),
    ("Saturation.N".toList, ⟨["SatN".toList, "Saturation.N".toList],
      .float, [("Phase.Saturation.Type".toList, "VanGenuchten".toList)], some "Phase.Saturation.GeomNames".toList⟩),
    ("Saturation.SRes".toList, ⟨["SRes".toList, "SatSRes".toList, "Saturation.SRes".toList],
      .float, [], some "Phase.Saturation.GeomNames".toList⟩),
    ("Saturation.SSat".toList, ⟨["SSat".toList, "SatSSat".toList, "Saturation.SSat".toList],
      .float, [], some "Phase.Saturation.GeomNames".toList⟩),
    ("Saturation.NumSamplePoints".toList, ⟨["SatNumSamplePoints".toList, "Saturation.NumSamplePoints".toList],
      .float, [("Phase.Saturation.Type".toList, "VanGenuchten".toList)], some "Phase.Saturation.GeomNames".toList⟩),
    ("Saturation.MinPressureHead".toList, ⟨["SatMinPressureHead".toList, "Saturation.MinPressureHead".toList],
      .float, [("Phase.Saturation.Type".toList, "VanGenuchten".toList)], some "Phase.Saturation.GeomNames".toList⟩),
    ("Saturation.A".toList, ⟨["SatA".toList, "Saturation.A".toList],
      .float, [("Phase.Saturation.Type".toList, "Haverkamp".toList)], some "Phase.Saturation.GeomNames".toList⟩),
    ("Saturation.Gamma".toList, ⟨["SatGamma".toList, "Saturation.Gamma".toList],
      .float, [("Phase.Saturation.Type".toList, "Haverkamp".toList)], some "Phase.Saturation.GeomNames".toList⟩),
    ("Saturation.Degree".toList, ⟨["SatDegree".toList, "Saturation.Degree".toList],
      .int, [("Phase.Saturation.Type".toList, "Polynomial".toList)], some "Phase.Saturation.GeomNames".toList⟩)
  ]

end ParFlow.TableToProperties
