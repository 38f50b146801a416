import Mathlib

/-! Locations of keys (`helper.py`), and the methods of `PFDBObj` that take one (`database/core.py`). A location is
normalized again by each method that is called with it. -/

namespace ParFlow.Location

/-! ## Normal forms -/

/-- `[a-zA-Z]` -/
def isLetter (c : Char) : Bool := c.isAlpha

def joinBy (sep : Char) (parts : List (List Char)) : List Char := [sep].intercalate parts

/-- One turn of the loop of `os.path.normpath`. -/
def pushComponent (rooted : Bool) (comps : List (List Char)) (comp : List Char) : List (List Char) :=
  if comp = [] ∨ comp = ['.'] then comps
  else if comp ≠ ['.', '.'] ∨ (rooted = false ∧ comps = []) ∨ comps.getLast? = some ['.', '.'] then comps ++ [comp]
  else comps.dropLast

/-- Two slashes at the start stay, and more of them are one. -/
def initialSlashes (path : List Char) : ℕ :=
  match path.takeWhile (· = '/') with
  | [] => 0
  | ['/', '/'] => 2
  | _ => 1

def normpath (path : List Char) : List Char :=
  let slashes := initialSlashes path
  let comps := (path.splitOn '/').foldl (pushComponent (slashes ≠ 0)) []
  let text := List.replicate slashes '/' ++ joinBy '/' comps
  if text = [] then ['.'] else text

/-- The substitution for `^\.([a-zA-Z]+)`. -/
def dropLeadingDot : List Char → List Char
  | '.' :: c :: rest => if isLetter c then c :: rest else '.' :: c :: rest
  | text => text

/-- The substitution for `([a-zA-Z]+)\.`, where `letter` tells whether a letter comes before the text. -/
def slashDots : (letter : Bool) → List Char → List Char
  | _, [] => []
  | letter, c :: rest => (if letter ∧ c = '.' then '/' else c) :: slashDots (isLetter c) rest

/-- `_normalize_location` -/
def normalizeText (s : List Char) : List Char := slashDots false (dropLeadingDot (normpath s))

/-- The decorator `normalize_location`. -/
def normalizeLocation {α : Type} (func : List Char → α) (location : List Char) : α := func (normalizeText location)

/-! ## The objects -/

/-- What an attribute of an object holds. -/
inductive Item (Obj V : Type) where
  | obj (o : Obj)
  | value (v : V)
  | list (items : List (Item Obj V))

/-- An exception of Python. -/
inductive Fault where
  | attribute

/-- The objects of a key database with their attributes. A parent is nearer to the root. -/
structure KeyDatabase (Obj V D : Type) where
  parent : Obj → Option Obj
  depth : Obj → ℕ
  parent_lt : ∀ o p, parent o = some p → depth p < depth o
  /-- `bool(item)`, which for an object asks for the number of values under it. -/
  truth : Item Obj V → Bool
  /-- `o[name]` -/
  getItem : Obj → List Char → Option (Item Obj V)
  /-- `getattr(item, name, None)` -/
  getAttr : Item Obj V → List Char → Option (Item Obj V)
  /-- `getattr(o, '_value_', None)` -/
  ownValue : Obj → Option (Item Obj V)
  childrenOfType : Obj → List Char → List (Item Obj V)
  fullName : Obj → List Char
  /-- `_pfstore_` -/
  store : Obj → Option (List Char → Option (Item Obj V))
  /-- `getattr(o, '_details_', {}).get(name, {})` -/
  detailsOf : Obj → List Char → D
  noDetails : D
  /-- `details.get('history')` is not empty. -/
  hasHistory : D → Bool

namespace KeyDatabase

variable {Obj V D : Type} (db : KeyDatabase Obj V D)

def ascend : ℕ → Obj → Obj
  | 0, o => o
  | n + 1, o => match db.parent o with
    | none => o
    | some p => ascend n p

/-- `while current._parent_ is not None: current = current._parent_` -/
def root (o : Obj) : Obj := db.ascend (db.depth o) o

/-- The steps of a path work on objects; anything else has no such attribute. -/
def asObj : Option (Item Obj V) → Except Fault Obj
  | some (.obj o) => .ok o
  | _ => .error .attribute

def mapToParent (o : Obj) : List (Option (Item Obj V)) := [(db.parent o).map .obj]

/-- `next_list` after a name: the children that are there, and the elements of lists when the first child is a list. -/
def flattenLists (items : List (Item Obj V)) : Except Fault (List (Option (Item Obj V))) :=
  match items with
  | .list _ :: _ => do
    let lists ← items.mapM fun
      | .list l => .ok (l.map some)
      | _ => .error .attribute
    .ok lists.flatten
  | _ => .ok (items.map some)

def selectStep (current : List (Option (Item Obj V))) (pathItem : List Char) :
    Except Fault (List (Option (Item Obj V))) := do
  if pathItem = [] ∨ pathItem = ['.'] then .ok current
  else
    let objs ← current.mapM asObj
    if pathItem = ['.', '.'] then .ok (objs.flatMap db.mapToParent)
    else if pathItem.head? = some '{' then
      .ok ((objs.flatMap fun o => db.childrenOfType o pathItem.tail.dropLast).map some)
    else flattenLists (objs.filterMap fun o => db.getItem o pathItem)

def select (self : Obj) : List Char → Except Fault (List (Option (Item Obj V))) :=
  normalizeLocation fun location =>
    let start := if location.head? = some '/' then db.root self else self
    (location.splitOn '/').foldlM db.selectStep [some (.obj start)]

/-- The loop of `_get_container_and_key` over steps to the parent, from the end of the path. -/
def climb (o : Obj) : List (List Char) → Obj
  | [] => o
  | key :: path => match db.parent o with
    | some p => if key = ['.', '.'] ∧ db.truth (.obj p) then climb p path else o
    | none => o

/-- `split('/')` of a path, `['']` for the empty one. -/
def containerAndKey (self : Obj) : List Char → Except Fault (Option (Item Obj V) × Option (List Char)) :=
  normalizeLocation fun location => do
    let split := location.splitOn '/'
    let key := split.getLastD []
    if key = ['.'] then return (some (.obj self), none)
    let climbs := key = ['.', '.'] ∧ (db.parent self).any fun p => db.truth (.obj p)
    if climbs then return (some (.obj (db.climb self split.reverse)), none)
    match ← db.select self (joinBy '/' split.dropLast) with
    | [] => return (none, none)
    | container :: _ => return (container, some key)

/-- The search in the stores from the root down to the key. -/
def searchStores : List (List Char) → Option (Item Obj V) → Option (List Char → Option (Item Obj V)) →
    Except Fault (Option (Item Obj V × List Char))
  | [], _, _ => .ok none
  | token :: tokens, node, store =>
    let key := joinBy '.' (token :: tokens)
    if key = [] then .ok none
    else match store.bind (· key) with
      | some value => .ok (some (value, key))
      | none => match node with
        | none => .ok none
        | some (.obj o) =>
          let child := db.getItem o token
          let childStore := match child with
            | some (.obj c) => db.store c
            | _ => none
          searchStores tokens child childStore
        | some _ => .error .attribute

/-- The steps `..` at the start of a location. -/
def localRoot : Option Obj → List (List Char) → Except Fault (Obj × List (List Char))
  | o, ['.', '.'] :: tokens => match o with
    | some o => localRoot (db.parent o) tokens
    | none => .error .attribute
  | some o, tokens => .ok (o, tokens)
  | none, _ => .error .attribute

/-- The name of a location from the root. -/
def fullKeyName (self : Obj) (location : List Char) : Except Fault (List Char) :=
  match location.splitOn '/' with
  | [] :: tokens => .ok (joinBy '.' tokens)
  | tokens => do
    let (o, tokens) ← db.localRoot (some self) (tokens.dropWhile (· = ['.']))
    let pre := db.fullName o
    .ok (joinBy '.' (if pre = [] then tokens else pre :: tokens))

/-- `_value`: the value, its container and the key in it. -/
def valueOf (self : Obj) : List Char → Except Fault (Option (Item Obj V) × Option (Item Obj V) × Option (List Char)) :=
  normalizeLocation fun location => do
    let (container, key) ← db.containerAndKey self location
    let found := match key with
      | none => container
      | some key => container.bind fun c => db.getAttr c key
    let value := match found with
      | some (.obj o) => db.ownValue o
      | found => found
    if value.isSome ∧ container.isSome then return (value, container, key)
    let start ← if container.any db.truth then asObj container else .ok self
    let root := db.root start
    let stored ← match container, key with
      | some c, some key => do
        let o ← asObj (some c)
        let name := joinBy '.' [db.fullName o, key]
        .ok ((db.store root).bind fun store => (store name).map fun value => (value, name))
      | _, _ => .ok none
    match stored with
    | some (value, name) => return (some value, some (.obj root), some name)
    | none =>
      let name ← db.fullKeyName self location
      match ← db.searchStores (name.splitOn '.') (some (.obj root)) (db.store root) with
      | some (value, name) => return (some value, some (.obj root), some name)
      | none => return (value, container, key)

def details (self : Obj) : List Char → Except Fault D :=
  normalizeLocation fun location => do
    let (value, container, key) ← db.valueOf self location
    let child := match container, key with
      | some (.obj o), some key => match db.getAttr (.obj o) key with
        | some (.obj _) => if key = [] then value else db.getItem o key
        | _ => value
      | _, _ => value
    match child with
    | some (.obj o) => return db.detailsOf o "_value_".toList
    | _ => match container with
      | some (.obj o) => return db.detailsOf o (key.getD "_value_".toList)
      | _ => return db.noDetails

def value (self : Obj) (skipDefault : Bool) : List Char → Except Fault (Option (Item Obj V)) :=
  normalizeLocation fun location => do
    let (value, _, _) ← db.valueOf self location
    if skipDefault then
      let details ← db.details self location
      if ¬ db.hasHistory details then return none
    return value

end KeyDatabase

/-! ## Two spellings -/

/-- A letter, and then letters, digits and underscores. -/
structure IsComponent (part : List Char) : Prop where
  first : part.head?.any isLetter
  rest : ∀ c ∈ part, c.isAlphanum ∨ c = '_'

def steps (ups : ℕ) : List Char := (List.replicate ups ['.', '.', '/']).flatten

def dotted (ups : ℕ) (parts : List (List Char)) : List Char := steps ups ++ joinBy '.' parts

def slashed (ups : ℕ) (parts : List (List Char)) : List Char := steps ups ++ joinBy '/' parts

/-- The normal form: the steps and the components with slashes between them. -/
def normalForm (ups : ℕ) (parts : List (List Char)) : List Char :=
  let comps := List.replicate ups ['.', '.'] ++ parts
  if comps = [] then ['.'] else joinBy '/' comps

/-- Both spellings have the same normal form, which is normalized to itself, and lead to the same results. -/
structure SpellingsAgree (ups : ℕ) (parts : List (List Char)) : Prop where
  dots : normalizeText (dotted ups parts) = normalForm ups parts
  slashes : normalizeText (slashed ups parts) = normalForm ups parts
  again : normalizeText (normalForm ups parts) = normalForm ups parts
  select_eq : ∀ (Obj V D : Type) (db : KeyDatabase Obj V D) (self : Obj),
    db.select self (dotted ups parts) = db.select self (slashed ups parts)
  value_eq : ∀ (Obj V D : Type) (db : KeyDatabase Obj V D) (self : Obj) (skipDefault : Bool),
    db.value self skipDefault (dotted ups parts) = db.value self skipDefault (slashed ups parts)
  details_eq : ∀ (Obj V D : Type) (db : KeyDatabase Obj V D) (self : Obj),
    db.details self (dotted ups parts) = db.details self (slashed ups parts)

end ParFlow.Location
