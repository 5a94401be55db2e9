/-!
# TOML values

Values of a document and the tables it is built of while it is read. No setting is a float or a
date, so those are only known to be there.
-/

namespace SpecLens.Toml

inductive Value where
  | string (text : String)
  | integer (n : Int)
  | float
  | boolean (b : Bool)
  | date
  | array (items : List Value)
  | table (entries : List (String × Value))
deriving Inhabited

/-- An entry of a table that is being built. A table can be there only because a path leads
through it; then it is implicit, and dotted if the path was a dotted key. -/
inductive Item where
  | value (v : Value)
  | table (implicit dotted : Bool) (entries : List (String × Item))
  | tables (elements : List (List (String × Item)))
deriving Inhabited

mutual

/-- The value an entry amounts to when the document is complete. -/
def Item.toValue : Item → Value
  | .value v => v
  | .table _ _ entries => .table (entriesToValues entries)
  | .tables elements => .array (elementsToValues elements)

def entriesToValues : List (String × Item) → List (String × Value)
  | [] => []
  | (key, item) :: rest => (key, item.toValue) :: entriesToValues rest

def elementsToValues : List (List (String × Item)) → List Value
  | [] => []
  | entries :: rest => .table (entriesToValues entries) :: elementsToValues rest

end

/-- A table that is being built. -/
structure Table where
  implicit : Bool
  dotted : Bool
  entries : List (String × Item)
deriving Inhabited

namespace Table

/-- A table that a document or a header defines. -/
def defined : Table := ⟨false, false, []⟩

def toItem (t : Table) : Item := .table t.implicit t.dotted t.entries

def find? (t : Table) (key : String) : Option Item := (t.entries.find? (·.1 == key)).map (·.2)

/-- The entries with `item` under `key`, where it stood or at the end. -/
def setEntry (key : String) (item : Item) : List (String × Item) → List (String × Item)
  | [] => [(key, item)]
  | e :: rest => if e.1 = key then (key, item) :: rest else e :: setEntry key item rest

def set (t : Table) (key : String) (item : Item) : Table :=
  { t with entries := setEntry key item t.entries }

def erase (t : Table) (key : String) : Table :=
  { t with entries := t.entries.filter (·.1 != key) }

/-- Changes the table at the end of a path by `f`. Tables that are missing on the way are made;
a dotted key must not lead through tables that are defined already. -/
def modify (dotted : Bool) (f : Table → Option Table) : List String → Table → Option Table
  | [], t => f t
  | key :: path, t =>
    match t.find? key with
    | none =>
      (modify dotted f path ⟨true, dotted, []⟩).map fun u => t.set key u.toItem
    | some (.value _) => none
    | some (.tables elements) =>
      match elements.getLast? with
      | none => none
      | some last =>
        (modify dotted f path ⟨false, false, last⟩).map fun u =>
          t.set key (.tables (elements.dropLast ++ [u.entries]))
    | some (.table implicit isDotted entries) =>
      if dotted && !implicit then none
      else (modify dotted f path ⟨implicit, isDotted, entries⟩).map fun u => t.set key u.toItem

/-- What stands under `key` in the table at the end of a path. The outer `none` means that the path
is blocked by a value, the inner one that nothing is there. -/
def lookup? (t : Table) : List String → String → Option (Option Item)
  | [], key => some (t.find? key)
  | step :: path, key =>
    match t.find? step with
    | none => some none
    | some (.value _) => none
    | some (.tables elements) =>
      match elements.getLast? with
      | none => none
      | some last => lookup? ⟨false, false, last⟩ path key
    | some (.table implicit dotted entries) => lookup? ⟨implicit, dotted, entries⟩ path key

/-- Adds a value under a dotted key, given by the path to its table and its last segment. -/
def insert (t : Table) (path : List String) (key : String) (v : Value) : Option Table :=
  modify true
    (fun u =>
      if u.dotted == path.isEmpty || (u.find? key).isSome then none
      else some (u.set key (.value v)))
    path t

end Table

end SpecLens.Toml
