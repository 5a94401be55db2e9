import SpecLens.Kotlin.Expression
import SpecLens.Kotlin.Header

/-!
# Class and object declarations

The declarations of a file with their qualified names and supertypes. `lineage` follows supertypes
that are declared in the same file.
-/

namespace SpecLens.Kotlin

open Text

/-- A supertype as written, without type arguments, and the names it may denote. -/
structure Supertype where
  text : String
  candidates : List String
deriving DecidableEq, Repr, Inhabited

/-- A class or object declaration. -/
structure Declaration where
  place : Place
  name : String
  nameNode : Option Place
  fqn : String
  supertypes : List Supertype
deriving Inhabited

def declarationKinds : List String := ["class_declaration", "object_declaration"]

def isDeclaration (n : Node) : Bool := declarationKinds.contains n.kind

/-- The identifier that names a declaration. -/
def declarationName? (p : Place) : Option Place :=
  p.nameChild.or (p.namedChildren.find? isIdentifier)

/-- The supertype entries of a declaration. -/
def delegationSpecifiers (p : Place) : List Place :=
  p.namedChildren.flatMap fun c =>
    if c.kind == "delegation_specifier" then [c]
    else if c.kind == "delegation_specifiers" then
      c.namedChildren.filter (·.kind == "delegation_specifier")
    else []

mutual

/-- The first type reference at or below a node, other than in arguments. -/
def userTypeOf : Node → List (Node × Nat) → Option Place
  | .node tag children, above =>
    if tag.kind == "user_type" then some ⟨.node tag children, above⟩
    else userTypeUnder (.node tag children) above children 0

def userTypeUnder (parent : Node) (above : List (Node × Nat)) : List Node → Nat → Option Place
  | [], _ => none
  | child :: rest, index =>
    (if child.named && !child.isComment && child.kind != "value_arguments" &&
        child.kind != "type_arguments" then
      userTypeOf child ((parent, index) :: above)
    else none).or (userTypeUnder parent above rest (index + 1))

end

mutual

/-- The identifiers below a type reference in order, those of its type arguments left out. -/
def segmentsOf (src : Source) : Node → List String
  | .node _ children => segmentsUnder src children

def segmentsUnder (src : Source) : List Node → List String
  | [] => []
  | child :: rest =>
    (if child.kind == "type_arguments" then []
      else if isIdentifier ⟨child, []⟩ then [unquoted (src.textOf ⟨child, []⟩)]
      else if child.named then segmentsOf src child
      else []) ++ segmentsUnder src rest

end

/-- The type references after the colon of a declaration. -/
def supertypeTexts (src : Source) (p : Place) : List String :=
  ((delegationSpecifiers p).filterMap fun s => userTypeOf s.node s.above).filterMap fun t =>
    let text := ".".intercalate (segmentsOf src t.node)
    if text.isEmpty then none else some text

/-- The declaration at a place inside declarations with the given names, outermost first. -/
def declarationAt (src : Source) (h : Header) (outer : List String) (p : Place) : Declaration :=
  let nameNode := declarationName? p
  let name := (nameNode.map fun n => unquoted (src.textOf n)).getD ""
  { place := p
    name
    nameNode
    fqn := h.qualify (".".intercalate (outer ++ [name]))
    supertypes := (supertypeTexts src p).map fun text => ⟨text, h.candidates text⟩ }

mutual

/-- The declarations at and below a node. -/
def declarationsOf (src : Source) (h : Header) (outer : List String) :
    Node → List (Node × Nat) → List Declaration
  | .node tag children, above =>
    if isDeclaration (.node tag children) then
      let d := declarationAt src h outer ⟨.node tag children, above⟩
      d :: declarationsUnder src h (outer ++ [d.name]) (.node tag children) above children 0
    else declarationsUnder src h outer (.node tag children) above children 0

def declarationsUnder (src : Source) (h : Header) (outer : List String) (parent : Node)
    (above : List (Node × Nat)) : List Node → Nat → List Declaration
  | [], _ => []
  | child :: rest, index =>
    (if child.named && !child.isComment then
      declarationsOf src h outer child ((parent, index) :: above)
    else []) ++ declarationsUnder src h outer parent above rest (index + 1)

end

/-- Every class and object declaration of a file, outer ones first. -/
def declarations (src : Source) : List Declaration :=
  declarationsUnder src (.read src) [] src.root [] src.root.children 0

/-- The last declaration with a simple name. -/
def lastNamed? (all : List Declaration) (name : String) : Option Declaration :=
  (all.filter (·.name = name)).getLast?

/-- The declarations of the file that a declaration extends, in the order it names them. -/
def localParents (all : List Declaration) (d : Declaration) : List Declaration :=
  d.supertypes.filterMap fun s => lastNamed? all s.text

/-- Bound on the length of chains of supertypes within a file. -/
def maxLineage : Nat := 8

/-- The declarations of one generation that no earlier one had, each once. -/
def newcomers (seen : List String) : List Declaration → List Declaration
  | [] => []
  | d :: rest => if d.fqn ∈ seen then newcomers seen rest else d :: newcomers (d.fqn :: seen) rest

/-- The declarations met generation by generation, for at most `depth` generations. -/
def generations (all : List Declaration) : Nat → List String → List Declaration → List Declaration
  | 0, _, _ => []
  | depth + 1, seen, frontier =>
    let fresh := newcomers seen frontier
    let next := fresh.flatMap (localParents all)
    fresh ++ if next.isEmpty then [] else
      generations all depth (seen ++ fresh.map (·.fqn)) next

/-- A declaration and those of the same file that it extends, nearest first. -/
def lineage (all : List Declaration) (d : Declaration) : List Declaration :=
  generations all maxLineage [] [d]

/-- The names that the supertypes of a declaration may denote, those of its lineage included. -/
def resolvedSupertypes (all : List Declaration) (d : Declaration) : List String :=
  (lineage all d).flatMap fun e => e.supertypes.flatMap (·.candidates)

end SpecLens.Kotlin
