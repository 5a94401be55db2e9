import SpecLens.Kotlin.Token
import SpecLens.Spec.Test

/-!
# Spec styles

A style says which calls declare tests and which containers. Recognizing a node, from the node
itself or from a token in it, is the same for all styles.
-/

namespace SpecLens

open Kotlin

/-- The name of a call that declares a test. -/
structure Keyword where
  name : String
  /-- Shown before the names of its tests. -/
  lead : Option String
  /-- The tests it declares are skipped. -/
  disabled : Bool
deriving DecidableEq, Repr, Inhabited

/-- A convention for writing specs, given by the calls it knows. -/
structure Style where
  name : String
  /-- The class that specs of this style extend. -/
  fqn : String
  /-- `keyword("name") \x7b \x7d` declares a test. -/
  leafCalls : List Keyword
  /-- `keyword("name").config(..) \x7b \x7d` declares a test. -/
  leafChains : List Keyword
  /-- `keyword("name") \x7b \x7d` declares a container. -/
  containerCalls : List Keyword
  /-- `keyword("name").config(..) \x7b \x7d` declares a container. -/
  containerChains : List Keyword
  /-- A string literal with a lambda declares a test. -/
  bareStrings : Bool
  /-- The keyword of a test stub, none where the name alone declares the test. -/
  stubKeyword : Option String
deriving DecidableEq, Repr, Inhabited

/-- What a node declares, before its path is known. -/
structure Declared where
  name : TestName
  kind : TestKind
  disabled : Bool
deriving DecidableEq, Repr, Inhabited

/-- The member that attaches configuration to a declaration. -/
def configMember : String := "config"

namespace Keyword

def enabled (name : String) : Keyword := ⟨name, none, false⟩

def skipped (name : String) : Keyword := ⟨name, none, true⟩

def withLead (k : Keyword) (lead : String) : Keyword := { k with lead := some lead }

/-- A keyword and its skipped variant, which has an `x` before the name. -/
def pair (name : String) : List Keyword := [enabled name, skipped ("x" ++ name)]

def declare (k : Keyword) (kind : TestKind) (l : Literal) : Declared :=
  ⟨⟨k.lead, l.text, l.interpolated⟩, kind, k.disabled⟩

/-- The first keyword of a name. -/
def find? (keywords : List Keyword) (name : String) : Option Keyword :=
  keywords.find? (·.name = name)

end Keyword

/-- What a call of one of the keywords declares. -/
def declaredByCall? (src : Source) (keywords : List Keyword) (kind : TestKind) (p : Place) :
    Option Declared :=
  match shape p with
  | .call c => do
    let name ← identifierName? src c.callee
    let k ← Keyword.find? keywords name
    let l ← literalOfCall? src [k.name] p
    pure (k.declare kind l)
  | _ => none

/-- What a configured call of one of the keywords declares. -/
def declaredByChain? (src : Source) (keywords : List Keyword) (kind : TestKind) (p : Place) :
    Option Declared :=
  match shape p with
  | .dot d => do
    let name ← callName? src d.receiver
    let k ← Keyword.find? keywords name
    let l ← literalOfChain? src [k.name] configMember p
    pure (k.declare kind l)
  | _ => none

/-- What a string literal with a lambda, configured or not, declares. -/
def declaredByString? (src : Source) (p : Place) : Option Declared :=
  ((literalOfInvoke? src p).or (literalOfReceiver? src configMember p)).map fun l =>
    ⟨⟨none, l.text, l.interpolated⟩, .leaf, false⟩

namespace Style

/-- The test a node declares. -/
def leaf? (s : Style) (src : Source) (p : Place) : Option Declared :=
  (if s.bareStrings then declaredByString? src p else none).or
    ((declaredByCall? src s.leafCalls .leaf p).or (declaredByChain? src s.leafChains .leaf p))

/-- The container a node declares. -/
def container? (s : Style) (src : Source) (p : Place) : Option Declared :=
  (declaredByCall? src s.containerCalls .container p).or
    (declaredByChain? src s.containerChains .container p)

/-- What a node declares; a test comes before a container. -/
def declared? (s : Style) (src : Source) (p : Place) : Option Declared :=
  (s.leaf? src p).or (s.container? src p)

/-- The containers around a node, outermost first. -/
def parents (s : Style) (src : Source) (p : Place) : List Declared :=
  (p.ancestors.filterMap (s.container? src)).reverse

/-- The test of a declaration, with its path through the containers around it. A test inside a
disabled container is disabled. -/
def build (s : Style) (src : Source) (p : Place) (d : Declared) : Test :=
  let parents := s.parents src p
  let path := parents.map (.ofName ·.name) ++ [.ofName d.name]
  { name := d.name
    path
    kind := d.kind
    disabled := d.disabled || parents.any (·.disabled)
    isRoot := path.length == 1
    anchor := src.anchorOf p }

/-- Recognizes a node. -/
def test? (s : Style) (src : Source) (p : Place) : Option Test :=
  (s.declared? src p).map (s.build src p)

/-- Recognizes from a token: the brace that opens a test's lambda, or the dot of a configured
declaration. -/
def testAtToken? (s : Style) (src : Source) (token : Place) : Option Test :=
  match callOfBrace? token with
  | some call => s.test? src call
  | none => (expressionOfDot? token).bind (s.test? src)

/-- The source of an empty test. -/
def stub (s : Style) (name : String) : String :=
  let literal := quote name.toList
  let body := " \x7b \x7d".toList
  String.ofList <| match s.stubKeyword with
    | some keyword => keyword.toList ++ ['('] ++ literal ++ [')'] ++ body
    | none => literal ++ body

end Style

end SpecLens
