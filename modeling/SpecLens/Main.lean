import SpecLens.App.Painting
import SpecLens.CommandLine.Basic
import SpecLens.CommandLine.Snapshot

/-!
# The program

Reads a snapshot of the disk from standard input and carries out the command that the arguments
give.
-/

namespace SpecLens

/-- The environment variables that the program looks at. -/
def environment : IO Environment := do
  let mut env := []
  for name in Environment.names do
    if let some value ← IO.getEnv name then
      env := (name, value) :: env
  return env

/-- The size of the screen that the application is first painted on. -/
def screenSize : Nat × Nat := (80, 24)

def printScreen (a : App) : IO Unit := do
  for row in a.paint screenSize.1 screenSize.2 do
    IO.println (String.ofList (row.map (·.char)))

def run (args : List String) : IO UInt32 := do
  match Arguments.read none args with
  | .error .help =>
    IO.println Arguments.usage
    return 0
  | .error .usage =>
    IO.eprintln Arguments.usage
    return 2
  | .ok a =>
    let world := Snapshot.read (← environment) (← (← IO.getStdin).readToEnd).toList
    match (a.perform world).1 with
    | .ok (.text text) =>
      IO.print text
      return 0
    | .ok (.app app) =>
      printScreen app
      return 0
    | .error e =>
      IO.eprintln e.message
      return 1

end SpecLens

def main (args : List String) : IO UInt32 := SpecLens.run args
