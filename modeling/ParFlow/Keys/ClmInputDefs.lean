import ParFlow.Lib.OrderedDict
import ParFlow.Lib.PyText

/-! The input file of the CLM driver: `CLMExporter.write_input` pads the key and the value of a line to columns, and
`_read_clmin` takes the words of a line apart again. -/

namespace ParFlow.ClmInput

open TextTable PyText OrderedDict

structure Item where
  key : List Char
  value : List Char
  help : List Char

/-- The items of one container of keys. -/
structure Group where
  doc : List Char
  items : List Item

/-- `text.replace('\n', ' ')` -/
def replaceNewlines (text : List Char) : List Char := text.map fun c => if c = '\n' then ' ' else c

def itemText (item : Item) : List Char :=
  padRight 15 item.key ++ padRight 40 item.value ++ replaceNewlines item.help ++ ['\n', '\n']

/-- The entry `doc` of a container is its own documentation and no item. -/
def groupText (group : Group) : List Char :=
  "!\n".toList ++ ("! ".toList ++ replaceNewlines (strip group.doc) ++ ['\n']) ++ "!\n".toList ++
    (group.items.filter fun item => item.key ≠ "doc".toList).flatMap itemText

def writeInput (autoGenerated runName : List Char) (groups : List Group) : List Char :=
  ("! ".toList ++ autoGenerated ++ ['\n']) ++
    ("! CLM input file for ".toList ++ (runName ++ " ParFlow run".toList) ++ ['\n']) ++ groups.flatMap groupText

inductive Fault where
  | index
  deriving DecidableEq

/-- The pair of a line, if it is one. -/
def readLine (lc : LowerCase) (line : List Char) : Except Fault (Option (List Char × List Char)) :=
  if line.head?.any lc.islower then
    match split line with
    | [] => .error .index
    | first :: rest =>
      if 15 < first.length then .ok (some (first.take 14, first.drop 15))
      else match rest with
        | second :: _ => .ok (some (first, second))
        | [] => .error .index
  else .ok none

def storeLine (lc : LowerCase) (clmVars : List (List Char × List Char)) (line : List Char) :
    Except Fault (List (List Char × List Char)) := do
  match ← readLine lc line with
  | some (key, value) => .ok (assign key value clmVars)
  | none => .ok clmVars

def readClmin (lc : LowerCase) (text : List Char) : Except Fault (List (List Char × List Char)) :=
  (fileLines text).foldlM (storeLine lc) []

/-! ## The round trip -/

def allItems (groups : List Group) : List Item := groups.flatMap Group.items

/-- Reading what was written gives exactly the keys, each with its value. -/
def RoundTrips (lc : LowerCase) (autoGenerated runName : List Char) (groups : List Group) : Prop :=
  ∃ clmVars, readClmin lc (writeInput autoGenerated runName groups) = .ok clmVars ∧
    ∀ key, get key clmVars = ((allItems groups).find? (·.key = key)).map Item.value

/-- Keys of at most fifteen characters that start with a lower-case letter, and values without white space. -/
structure IsInput (lc : LowerCase) (items : List Item) : Prop where
  keys_nodup : (items.map Item.key).Nodup
  key_length : ∀ item ∈ items, item.key.length ≤ 15
  key_lower : ∀ item ∈ items, item.key.head?.any lc.islower
  value_solid : ∀ item ∈ items, ∀ c ∈ item.value, isSpace c = false

/-- The lines behind the first one of a text. -/
def hiddenLines (text : List Char) : List (List Char) := tokens isBreak (text.dropWhile fun c => !isBreak c)

/-- No text has a line of its own that starts like a pair: a newline in the name of the run, or a carriage return in
another text. -/
def NoHiddenPairs (lc : LowerCase) (autoGenerated runName : List Char) (groups : List Group) : Prop :=
  ∀ text ∈ autoGenerated :: (runName ++ " ParFlow run".toList) ::
    (groups.map fun group => replaceNewlines (strip group.doc)) ++
      (allItems groups).map (fun item => replaceNewlines item.help),
    ∀ line ∈ hiddenLines text, line.head?.any lc.islower = false

/-- Columns that keep apart what is in them. -/
structure Fits (item : Item) : Prop where
  key_doc : item.key ≠ "doc".toList
  key_length : item.key.length ≤ 14
  key_solid : ∀ c ∈ item.key, isSpace c = false
  value_ne_nil : item.value ≠ []
  value_length : item.value.length < 40 ∨ item.help.head?.all isSpace

end ParFlow.ClmInput
