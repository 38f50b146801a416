import ParFlow.Keys.DatabaseDefs
import ParFlow.Lib.IntLoop
import ParFlow.Lib.TextScan

/-! The metadata of a run: `metadata.c` registers the steps of a field in a JSON tree, and `pf_backend.py`
makes the names of the files from it. -/

namespace ParFlow.Metadata

open TextScan

/-! ## JSON -/

inductive CJson where
  | string (text : Str)
  | number (value : ℤ)
  | jsonTrue
  | array (items : List CJson)
  | object (items : List (Str × CJson))

/-- `cJSON_strcasecmp` returns zero. -/
def sameName (s t : Str) : Bool := s.map Char.toLower = t.map Char.toLower

namespace CJson

/-- The first item that `cJSON_GetObjectItem` compares equal; the items of an array have no names. -/
def getObjectItem (object : CJson) (name : Str) : Option CJson :=
  match object with
  | .object items => (items.find? fun kv => sameName kv.1 name).map Prod.snd
  | _ => none

def addItemToObject (object : CJson) (name : Str) (item : CJson) : CJson :=
  match object with
  | .object items => .object (items ++ [(name, item)])
  | j => j

/-- A change of the item that the name is found at. -/
def updateFirst (name : Str) (change : CJson → CJson) : List (Str × CJson) → List (Str × CJson)
  | [] => []
  | kv :: rest => if sameName kv.1 name then (kv.1, change kv.2) :: rest else kv :: updateFirst name change rest

def updateObjectItem (object : CJson) (name : Str) (change : CJson → CJson) : CJson :=
  match object with
  | .object items => .object (updateFirst name change items)
  | j => j

/-- `j[name]` in Python: the last item with the name. -/
def item (j : CJson) (name : Str) : Option CJson :=
  match j with
  | .object items => (items.reverse.find? fun kv => kv.1 = name).map Prod.snd
  | _ => none

end CJson

open CJson

/-! ## Registering a step -/

/-- The arguments of `MetadataAddDynamicField`. The number of components is that of the postfixes; the texts
other than the units are there. -/
structure DynamicField where
  filePrefix : Str
  step : ℤ
  fieldName : Str
  fieldUnits : Option Str
  fieldPlacement : Str
  fieldDomain : Str
  componentPostfixes : List Str

/-- What `snprintf(temp, 2047, ..)` leaves of a text. -/
def snprintf (text : Str) : Str := text.take 2046

def fileSeries (filePrefix componentPostfix : Str) : Str :=
  snprintf (filePrefix ++ dot ++ componentPostfix ++ ".%05d.pfb".toList)

/-- `x`, `y` and `z` for up to three components, and numbers for more. -/
def componentName (numComponents ii : ℕ) : Str :=
  if numComponents < 4 then [Char.ofNat ('x'.toNat + ii)] else decimal ii

def fileDescr (a : DynamicField) (componentPostfix : Str) (ii : ℕ) : CJson :=
  let numComponents := a.componentPostfixes.length
  .object ([("file-series".toList, .string (fileSeries a.filePrefix componentPostfix)),
      ("time-range".toList, .array [.number a.step, .number a.step])] ++
    if 1 < numComponents then [("component".toList, .string (componentName numComponents ii))] else [])

def newFieldItem (a : DynamicField) : CJson :=
  let units := match a.fieldUnits with
    | some text => if text = [] then [] else [("units".toList, .string text)]
    | none => []
  .object ([("type".toList, .string "pfb".toList), ("place".toList, .string a.fieldPlacement),
      ("domain".toList, .string a.fieldDomain), ("time-varying".toList, .jsonTrue)] ++ units ++
    [("data".toList, .array (a.componentPostfixes.mapIdx fun ii componentPostfix => fileDescr a componentPostfix ii))])

def hasText (name text : Str) (fieldItem : CJson) : Bool :=
  match fieldItem.getObjectItem name with
  | some (.string s) => s = text
  | _ => false

/-- The end of the time range becomes the step. An entry without a file series or a range stays. -/
def setEndTime (step : ℤ) (fentry : CJson) : CJson :=
  match fentry.getObjectItem "file-series".toList, fentry.getObjectItem "time-range".toList with
  | some _, some (.array (start :: .number _ :: rest)) =>
    fentry.updateObjectItem "time-range".toList fun _ => .array (start :: .number step :: rest)
  | _, _ => fentry

/-- The returned number, and the metadata after the call. -/
def metadataAddDynamicField (parent : CJson) (a : DynamicField) : ℤ × CJson :=
  match parent.getObjectItem a.fieldName with
  | none =>
    if a.componentPostfixes = [] then (0, parent)
    else (1, parent.addItemToObject a.fieldName (newFieldItem a))
  | some fieldItem =>
    if !hasText "type".toList "pfb".toList fieldItem then (0, parent)
    else if !hasText "place".toList a.fieldPlacement fieldItem then (0, parent)
    else if !hasText "domain".toList a.fieldDomain fieldItem then (0, parent)
    else
      match fieldItem.getObjectItem "time-varying".toList, fieldItem.getObjectItem "data".toList with
      | some .jsonTrue, some (.array fdata) =>
        (1, parent.updateObjectItem a.fieldName fun fieldItem =>
          fieldItem.updateObjectItem "data".toList fun _ => .array (fdata.map (setEndTime a.step)))
      | _, _ => (0, parent)

/-- The metadata after some calls. -/
def addDynamicFields (parent : CJson) (calls : List DynamicField) : CJson :=
  calls.foldl (fun parent a => (metadataAddDynamicField parent a).2) parent

/-! ## Files -/

/-- The conversion `%0<width>d`: zeros between the sign and the digits. -/
def zeroPadded (width : ℕ) (n : ℤ) : Str :=
  let sign := if n < 0 then ['-'] else []
  let digits := decimal n.natAbs
  sign ++ List.replicate (width - (sign.length + digits.length)) '0' ++ digits

/-- The same with blanks before the sign. -/
def blankPadded (width : ℕ) (n : ℤ) : Str :=
  let text := (if n < 0 then ['-'] else []) ++ decimal n.natAbs
  List.replicate (width - text.length) ' ' ++ text

/-- `sprintf(file_postfix, "<postfix>.%05d", step)` and the name that `WritePFBinary` opens. -/
def writtenFile (filePrefix componentPostfix : Str) (step : ℤ) : Str :=
  let filePostfix := componentPostfix ++ dot ++ zeroPadded 5 step
  filePrefix ++ dot ++ filePostfix ++ dot ++ "pfb".toList

/-- `pad % n` for a text with one conversion to a decimal; `none` is an exception. -/
def percent (pad : Str) (n : ℤ) : Option Str :=
  let (before, conversion) := pad.span (· ≠ '%')
  let (flag, rest) := conversion.tail.span Char.isDigit
  match conversion, rest with
  | _ :: _, 'd' :: after =>
    if '%' ∈ after then none
    else
      let text := if flag.head? = some '0' then zeroPadded (Nat.ofDigitChars 10 flag 0) n
        else blankPadded (Nat.ofDigitChars 10 flag 0) n
      some (before ++ text ++ after)
  | _, _ => none

/-- `np.arange` with one, two or three integers. -/
def arange : List ℤ → Option (List ℤ)
  | [stop] => some (IntLoop.upto 0 stop)
  | [start, stop] => some (IntLoop.upto start stop)
  | [start, stop, step] =>
    if step = 0 then none
    else
      let count := if 0 < step then (stop - start + step - 1) / step else (start - stop - step - 1) / (-step)
      some ((List.range count.toNat).map fun i => start + step * i)
  | _ => none

def numberValue : CJson → Option ℤ
  | .number n => some n
  | _ => none

/-- The names for some steps: the last two pieces of the template are the number and the extension. -/
def seriesFiles (fileTemplate : Str) (timeIdx : List ℤ) : Option (List Str) :=
  let pieces := fileTemplate.splitOn '.'
  match pieces.drop (pieces.length - 2) with
  | [pad, fmt] =>
    let basename := dot.intercalate (pieces.take (pieces.length - 2))
    timeIdx.mapM fun n => (percent pad n).map fun text => basename ++ dot ++ text ++ dot ++ fmt
  | _ => none

/-- The names that `load_time_varying_pfb` makes; `none` is an exception. -/
def allFiles (varMeta : CJson) : Option (List Str) :=
  match varMeta.item "data".toList with
  | some (.array (entry :: _)) =>
    match entry.item "file-series".toList, entry.item "time-range".toList with
    | some (.string fileTemplate), some (.array range) => do
      let range ← range.mapM numberValue
      let timeIdx ← arange range
      -- `time_idx[-1]`
      let _nTime ← timeIdx.getLast?
      seriesFiles fileTemplate timeIdx
    | _, _ => none
  | _ => none

/-- The files that are opened, in their order. -/
def loadTimeVaryingPfb (pathExists : Str → Bool) (baseDir : Str) (varMeta : CJson) : Option (List Str) := do
  let files ← allFiles varMeta
  let first ← files.head?
  if pathExists first then some files else some (files.map fun file => baseDir ++ "/".toList ++ file)

end ParFlow.Metadata
