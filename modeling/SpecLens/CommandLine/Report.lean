import SpecLens.Project.Index
import SpecLens.Spec.Marker

/-!
# Reports

The text that the commands print for people.
-/

namespace SpecLens.Report

/-- A text filled up with blanks at its end. -/
def padEnd (width : Nat) (s : String) : String :=
  s ++ String.ofList (List.replicate (width - s.length) ' ')

/-- A text filled up with blanks at its start. -/
def padStart (width : Nat) (s : String) : String :=
  String.ofList (List.replicate (width - s.length) ' ') ++ s

def kindName : TestKind → String
  | .container => "Container"
  | .leaf => "Test"

/-- What is to be known of a test before it is run. -/
def notes (t : Test) : String :=
  let all := (if t.disabled then ["disabled"] else []) ++
    (if t.name.interpolated then ["interpolated"] else [])
  if all.isEmpty then "" else "  (" ++ ", ".intercalate all ++ ")"

def testLine (depth : Nat) (t : Test) : String :=
  String.ofList (List.replicate (2 * depth) ' ') ++ kindName t.kind ++ " " ++ t.name.display ++
    "  :" ++ toString t.anchor.line ++ notes t ++ "\n"

mutual

/-- A test and those nested in it, each on a line and indented by its depth. -/
def testLines (depth : Nat) : TestTree → String
  | .node test nested => testLine depth test ++ testsLines (depth + 1) nested

def testsLines (depth : Nat) : List TestTree → String
  | [] => ""
  | tree :: rest => testLines depth tree ++ testsLines depth rest

end

def specLines (s : Spec) : String :=
  s.name ++ " [" ++ s.style ++ "]  (" ++ s.fqn ++ ")\n" ++ testsLines 1 s.tests

def specs (file : Path) (specs : List Spec) : String :=
  if specs.isEmpty then "No Kotest specs in " ++ file.text ++ "\n"
  else String.join (specs.map specLines)

def marker (m : Marker) : String :=
  padStart 5 (toString m.line) ++ "  " ++ m.kind.name ++ " " ++ m.label ++ "\n"

def style (s : Style) : String := padEnd 16 s.name ++ " " ++ s.fqn ++ "\n"

def indexedSpec (f : IndexedFile) (s : Spec) : String :=
  "  " ++ s.fqn ++ " [" ++ s.style ++ "]  " ++ toString s.testCount ++ " tests  (" ++
    f.relativePath ++ ")\n"

def moduleLines (group : String × List IndexedFile) : String :=
  group.1 ++ "\n" ++ String.join (group.2.flatMap fun f => f.specs.map (indexedSpec f))

def index (i : ProjectIndex) : String :=
  String.join (i.byModule.map moduleLines) ++ "\n" ++ toString i.scanned ++ " files scanned, " ++
    toString i.specCount ++ " specs, " ++ toString i.testCount ++ " tests\n"

end SpecLens.Report
