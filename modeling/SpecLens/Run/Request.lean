import SpecLens.Config.Basic
import SpecLens.Spec.Test
import SpecLens.Style.Registry

/-!
# Run requests

A request names a spec class and possibly a test in it. It is rendered as a Gradle command line in
which a word is written plain where all its characters are harmless in a shell, else in single
quotes; nothing here starts a process.
-/

namespace SpecLens

/-- How a test is to be run. -/
inductive RunMode where
  | run
  | debug
  | coverage
deriving DecidableEq, Repr, Inhabited

namespace RunMode

def name : RunMode → String
  | run => "Run"
  | debug => "Debug"
  | coverage => "Coverage"

/-- Reads a mode in upper or lower case. -/
def read? (text : String) : Option RunMode :=
  match String.ofList (Text.lower text.toList) with
  | "run" => some run
  | "debug" => some debug
  | "coverage" => some coverage
  | _ => none

end RunMode

/-- A request to run a spec or one of its tests. -/
structure RunRequest where
  mode : RunMode
  file : Option Path
  specFqn : String
  /-- Empty when the whole spec runs. -/
  testPath : List PathEntry
  line : Nat
deriving Repr, Inhabited

/-- A command with the environment variables it needs. -/
structure Invocation where
  env : List (String × String)
  program : String
  args : List String
deriving DecidableEq, Repr, Inhabited

/-- The variable that selects spec classes. -/
def specFilterVariable : String := "kotest_filter_specs"

/-- The variable that selects tests by their path. -/
def testFilterVariable : String := "kotest_filter_tests"

namespace RunRequest

def forSpec (mode : RunMode) (file : Option Path) (specFqn : String) (line : Nat) : RunRequest :=
  ⟨mode, file, specFqn, [], line⟩

/-- Runs a test with all that is nested in it. An interpolated name cannot be filtered by, so the
path ends before the first one; the whole spec runs if nothing is left. -/
def forTest (mode : RunMode) (file : Option Path) (specFqn : String) (t : Test) : RunRequest :=
  ⟨mode, file, specFqn, t.stablePath, t.anchor.line⟩

def testFilter (r : RunRequest) : Option String :=
  if r.testPath.isEmpty then none else some (readablePath r.testPath)

/-- The name shown for a request. -/
def name (r : RunRequest) : String :=
  match r.testFilter with
  | some filter => simpleName r.specFqn ++ ": " ++ filter
  | none => simpleName r.specFqn

/-- The Gradle command that carries out a request. -/
def invocation (r : RunRequest) (c : RunConfig) : Invocation where
  env := (specFilterVariable, r.specFqn) ::
    (r.testFilter.map fun filter => (testFilterVariable, filter)).toList
  program := c.gradleCommand
  args := [c.testTask, "--tests", r.specFqn] ++
    match r.mode with
    | .run => []
    | .debug => [c.debugFlag]
    | .coverage => [c.coverageTask]

end RunRequest

namespace ShellWord

/-- The characters that need no quotes. -/
def isPlain (c : Char) : Bool :=
  c.isAlphanum || "-_./=:".toList.contains c

/-- A character between single quotes. A single quote closes the quotes for itself. -/
def quotedChar (c : Char) : List Char :=
  if c = '\'' then ['\'', '\\', '\'', '\''] else [c]

/-- A word as it is written in a shell. -/
def encode (cs : List Char) : List Char :=
  if !cs.isEmpty && cs.all isPlain then cs
  else '\'' :: (cs.flatMap quotedChar ++ ['\''])

end ShellWord

/-- An invocation as a line to paste into a shell. -/
def Invocation.shellLine (i : Invocation) : String :=
  let word (s : String) := String.ofList (ShellWord.encode s.toList)
  " ".intercalate
    (i.env.map (fun (key, value) => key ++ "=" ++ word value) ++ word i.program :: i.args.map word)

end SpecLens
