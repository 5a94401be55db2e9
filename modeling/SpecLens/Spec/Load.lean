import SpecLens.Config.Load
import SpecLens.Spec.Discovery

/-!
# Loading source files

Files are read from a disk within the configured limits. The grammar that turns a text into its
syntax tree is given from outside.
-/

namespace SpecLens

/-- The parser of source texts. -/
abbrev Grammar := String → Node

/-- What the program works on: a disk, its environment and the grammar of the sources. -/
structure World where
  disk : Disk
  environment : Environment
  grammar : Grammar

/-- Why a project or a source file cannot be loaded. -/
inductive LoadError where
  | io (path : Path) (cause : DiskError)
  | tooLarge (path : Path) (size limit : Nat)
  | unsupported (path : Path)
deriving DecidableEq, Repr, Inhabited

def LoadError.message : LoadError → String
  | io path cause => "IO error at " ++ path.text ++ ": " ++ cause.message
  | tooLarge path size limit =>
    path.text ++ " is " ++ toString size ++ " bytes, over the " ++ toString limit ++ " byte limit"
  | unsupported path => "Not a Kotlin source file: " ++ path.text

/-- The source of a text. -/
def Source.ofText (grammar : Grammar) (text : String) : Source := ⟨text.toList, grammar text⟩

namespace Discovery

/-- Reads and parses a source file. -/
def load (d : Discovery) (w : World) (path : Path) : Except LoadError Source := do
  if d.config.isSource path then
    let size ← (w.disk.size path).mapError (.io path)
    if d.config.maxFileSize < size then .error (.tooLarge path size d.config.maxFileSize)
    else
      let text ← (w.disk.readText path).mapError (.io path)
      .ok (.ofText w.grammar text)
  else .error (.unsupported path)

/-- The specs of a source file. -/
def specsOfFile (d : Discovery) (w : World) (path : Path) : Except LoadError (List Spec) :=
  (d.load w path).map d.specs

end Discovery

end SpecLens
