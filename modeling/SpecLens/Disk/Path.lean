import SpecLens.Text.Split

/-!
# Paths

A path is a text. What it means is told by its components: repeated slashes and inner `.` do not
matter, and paths are compared and ordered by component.
-/

namespace SpecLens

open Text

/-- A part of a path, in the order in which such parts sort. -/
inductive Component where
  /-- The root directory. -/
  | root
  /-- A `.` at the start. -/
  | here
  /-- A `..`. -/
  | up
  | name (text : String)
deriving DecidableEq, Repr, Inhabited

namespace Component

/-- The sort of a component. -/
def rank : Component → Nat
  | root => 0
  | here => 1
  | up => 2
  | name _ => 3

/-- Whether `a` does not come after `b`: names are in the order of their characters. -/
def le : Component → Component → Bool
  | name a, name b => decide (a ≤ b)
  | a, b => decide (a.rank ≤ b.rank)

/-- The order of lists of components. -/
def listLe : List Component → List Component → Bool
  | [], _ => true
  | _ :: _, [] => false
  | a :: as, b :: bs => if a = b then listLe as bs else a.le b

end Component

/-- A path as it is written. -/
structure Path where
  text : String
deriving DecidableEq, Repr, Inhabited

namespace Path

/-- The parts between the slashes. -/
def segments (p : Path) : List (List Char) := splitAt '/' p.text.toList

def isAbsolute (p : Path) : Bool := p.text.toList.head? == some '/'

/-- The component a segment stands for, unless it is empty or a `.`. -/
def component? (segment : List Char) : Option Component :=
  if segment = [] ∨ segment = ['.'] then none
  else if segment = ['.', '.'] then some .up
  else some (.name (String.ofList segment))

/-- The component of the first segment: an empty one before a slash is the root. -/
def firstComponent? (absolute : Bool) (segment : List Char) : Option Component :=
  if absolute then some .root
  else if segment = ['.'] then some .here
  else component? segment

def components (p : Path) : List Component :=
  match p.segments with
  | [] => []
  | first :: rest => (firstComponent? p.isAbsolute first).toList ++ rest.filterMap component?

/-- Whether two paths have the same components. -/
def same (p q : Path) : Bool := p.components == q.components

/-- Whether `p` does not come after `q`. -/
def le (p q : Path) : Bool := Component.listLe p.components q.components

/-- `q` seen from the directory `p`; an absolute path stays as it is. -/
def join (p q : Path) : Path :=
  if q.isAbsolute || p.text.isEmpty then q
  else if p.text.toList.getLast? == some '/' then ⟨p.text ++ q.text⟩
  else ⟨p.text ++ "/" ++ q.text⟩

/-- The absolute path of the given names. -/
def ofNames (names : List String) : Path := ⟨"/" ++ "/".intercalate names⟩

/-- The last component, if it is a name. -/
def fileName? (p : Path) : Option String :=
  match p.components.getLast? with
  | some (.name text) => some text
  | _ => none

/-- What follows the last dot of a name that has one after its first character. -/
def extension? (p : Path) : Option String :=
  p.fileName?.bind fun name =>
    let cs := name.toList
    let ext := afterLast '.' cs
    if ext.length + 1 < cs.length then some (String.ofList ext) else none

/-- Whether the components of `base` are the first ones of `p`. -/
def startsWith (p base : Path) : Bool := base.components.isPrefixOf p.components

/-- The segments that follow the first `n` components. -/
def dropComponents : Nat → List (List Char) → List (List Char)
  | 0, segments => segments
  | _ + 1, [] => []
  | n + 1, segment :: rest =>
    if (component? segment).isNone then dropComponents (n + 1) rest else dropComponents n rest

/-- The part of `p` that lies below `base`, as `p` writes it. -/
def relativeTo? (p base : Path) : Option Path :=
  if p.startsWith base && base.isAbsolute then
    let below := dropComponents (base.components.length - 1) p.segments.tail
    let trimmed := dropWhileEnd (fun s => (component? s).isNone)
      (below.dropWhile fun s => (component? s).isNone)
    some ⟨String.ofList (['/'].intercalate trimmed)⟩
  else none

end Path

end SpecLens
