import SpecLens.Text.Split
import SpecLens.Tree.Source

/-!
# File headers

The package and the imports of a file decide which fully qualified names a reference may denote.
Each import directive is read from its text and brings at most one simple name into scope.
-/

namespace SpecLens.Kotlin

open Text

/-- An import directive. `path` comes without `.*`, `asName` is the name after `as`. -/
structure Import where
  path : String
  asName : Option String
  wildcard : Bool
deriving DecidableEq, Repr, Inhabited

namespace Import

/-- The path a directive writes, with whether it ends in `.*`. -/
def readPath (cs : List Char) : List Char × Bool :=
  let path := squeeze cs
  match dropTail? ['.', '*'] path with
  | some path => (path, true)
  | none => (path, false)

/-- Reads a directive; blanks may stand anywhere within the path, semicolons at the end. -/
def read? (cs : List Char) : Option Import :=
  (dropLead? "import".toList (trim cs)).bind fun rest =>
    let body := trim (dropWhileEnd (· == ';') (trim rest))
    let (written, asName) :=
      match cutAt? " as ".toList body with
      | some (path, asName) => (trim path, some (String.ofList (trim asName)))
      | none => (body, none)
    let (path, wildcard) := readPath written
    if path.isEmpty then none else some ⟨String.ofList path, asName, wildcard⟩

/-- The simple name that the directive brings into scope. -/
def visibleName (i : Import) : Option String :=
  if i.wildcard then none
  else some (i.asName.getD (String.ofList (afterLast '.' i.path.toList)))

end Import

/-- The package and the imports of a file. -/
structure Header where
  package : Option String
  imports : List Import
deriving Repr, Inhabited

/-- The text without any number of copies of `word` at its start. -/
def dropCopies (word : List Char) : Nat → List Char → List Char
  | 0, cs => cs
  | n + 1, cs =>
    match dropLead? word cs with
    | some rest => dropCopies word n rest
    | none => cs

/-- The package that the text of a package header names. -/
def packageName? (cs : List Char) : Option String :=
  let rest := dropCopies "package".toList cs.length (trim cs)
  let name := squeeze (dropWhileEnd (· == ';') (trim rest))
  if name.isEmpty then none else some (String.ofList name)

namespace Header

/-- A header after one more entry of the file. -/
def add (src : Source) (h : Header) (p : Place) : Header :=
  if p.kind == "package_header" then
    { h with package := (packageName? (src.textOf p)).or h.package }
  else if p.kind == "import_header" || p.kind == "import" then
    { h with imports := h.imports ++ (Import.read? (src.textOf p)).toList }
  else h

mutual

/-- The entries of a header at a node: import lists are opened. -/
def entriesOf : Node → List (Node × Nat) → List Place
  | .node tag children, above =>
    if tag.kind == "import_list" then entriesUnder (.node tag children) above children 0
    else [⟨.node tag children, above⟩]

def entriesUnder (parent : Node) (above : List (Node × Nat)) : List Node → Nat → List Place
  | [], _ => []
  | child :: rest, index =>
    (if child.named && !child.isComment then entriesOf child ((parent, index) :: above) else []) ++
      entriesUnder parent above rest (index + 1)

end

/-- The header of a file. -/
def read (src : Source) : Header :=
  (entriesUnder src.root [] src.root.children 0).foldl (add src) ⟨none, []⟩

/-- The fully qualified names that a reference may denote: the explicit imports of its first
segment come first, then a dotted reference itself, the wildcard imports, the package, and last a
simple reference itself. -/
def candidates (h : Header) (reference : String) : List String :=
  let (first, rest) :=
    match cutAt? ['.'] reference.toList with
    | some (first, rest) => (String.ofList first, some (String.ofList rest))
    | none => (reference, none)
  let named := (h.imports.filter (·.visibleName = some first)).map fun i =>
    match rest with
    | some rest => i.path ++ "." ++ rest
    | none => i.path
  let wildcards := (h.imports.filter (·.wildcard)).map (·.path ++ "." ++ reference)
  let inPackage := h.package.toList.map (· ++ "." ++ reference)
  (named ++ (if rest.isSome then [reference] else []) ++ wildcards ++ inPackage ++
    (if rest.isNone then [reference] else [])).eraseDups

/-- The fully qualified name of a declaration of the file. -/
def qualify (h : Header) (name : String) : String :=
  match h.package with
  | some package => package ++ "." ++ name
  | none => name

end Header

end SpecLens.Kotlin
