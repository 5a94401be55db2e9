import SpecLens.Disk.Path
import SpecLens.Text.Numeral

/-!
# Command line arguments

Reads the arguments of the program into a command. Options may stand anywhere after the name of
the command; `--` makes everything behind it positional.
-/

namespace SpecLens

/-- What the program is asked to do. -/
inductive Command where
  | tests (file : Path) (json : Bool)
  | at (file : Path) (line column : Nat)
  | markers (file : Path) (json : Bool)
  | run (file : Path) (line : Nat) (mode : String)
  | stub (style name : String)
  | styles
  | scan (directory : Option Path) (json : Bool)
  | explore (directory : Option Path) (files : List Path)
  | config
deriving DecidableEq, Repr, Inhabited

/-- A command with the configuration file it is given. -/
structure Arguments where
  config : Option Path
  command : Command
deriving DecidableEq, Repr, Inhabited

/-- Why arguments are no command: they ask for help or do not fit. -/
inductive Refusal where
  | help
  | usage
deriving DecidableEq, Repr, Inhabited

namespace Arguments

/-- Lines and columns are below this bound. -/
def numberLimit : Nat := 4294967296

/-- Reads a line or column. Zero can have a minus sign. -/
def number? (text : String) : Option Nat :=
  match text.toList with
  | '-' :: digits => (Text.decimal? digits).filter (· = 0)
  | cs => Text.unsigned? numberLimit cs

def isNumber (text : String) : Bool := (number? text).isSome

/-- A path is not empty. -/
def isPath (text : String) : Bool := !text.isEmpty

def isAnything (_ : String) : Bool := true

/-- What a command takes: which values suit each of its positional arguments, those of which the
first `required` must be there, the further ones, its options and its flags. -/
structure Form where
  positional : List (String → Bool)
  required : Nat
  further : Option (String → Bool)
  options : List (String × (String → Bool))
  flags : List String

/-- What a command is given, in reverse order. -/
structure Given where
  positional : List String
  options : List (String × String)
  flags : List String

def Given.none : Given := ⟨[], [], []⟩

/-- Whether an argument is an option or a flag. A single hyphen is a value. -/
def isOption (arg : String) : Bool := arg.toList.head? == some '-' && arg != "-"

/-- Whether an argument asks for help. -/
def asksForHelp (arg : String) : Bool := arg == "--help" || "-h".toList.isPrefixOf arg.toList

/-- The name and the value of an option that has its value attached. -/
def attached? (arg : String) : Option (String × String) :=
  (Text.cutAt? ['='] arg.toList).map fun (name, value) => (.ofList name, .ofList value)

/-- Adds a positional argument. -/
def Form.addPositional (f : Form) (g : Given) (arg : String) : Except Refusal Given :=
  match (f.positional[g.positional.length]?).or f.further with
  | some suits =>
    if suits arg then .ok { g with positional := arg :: g.positional } else .error .usage
  | .none => .error .usage

/-- Adds an option, which can be given once. -/
def Form.addOption (f : Form) (g : Given) (name value : String) : Except Refusal Given :=
  match f.options.find? (·.1 == name) with
  | some (_, suits) =>
    if suits value && !g.options.any (·.1 == name) then
      .ok { g with options := (name, value) :: g.options }
    else .error .usage
  | .none => .error .usage

/-- Adds a flag, which can be given once. -/
def Form.addFlag (f : Form) (g : Given) (name : String) : Except Refusal Given :=
  if f.flags.contains name && !g.flags.contains name then
    .ok { g with flags := name :: g.flags }
  else .error .usage

/-- Reads the arguments of a command. -/
def Form.read (f : Form) (g : Given) : List String → Except Refusal Given
  | [] => if g.positional.length < f.required then .error .usage else .ok g
  | "--" :: args => do
    let g ← args.foldlM f.addPositional g
    if g.positional.length < f.required then .error .usage else .ok g
  | arg :: args =>
    if !isOption arg then do
      let g ← f.addPositional g arg
      f.read g args
    else if asksForHelp arg then .error .help
    else match attached? arg with
      | some (name, value) => do
        let g ← f.addOption g name value
        f.read g args
      | .none =>
        if f.options.any (·.1 == arg) then
          match args with
          | value :: args =>
            if isOption value then .error .usage
            else do
              let g ← f.addOption g arg value
              f.read g args
          | [] => .error .usage
        else do
          let g ← f.addFlag g arg
          f.read g args

/-- A summary of the commands. -/
def usage : String :=
  "Usage: ktspec [--config FILE] COMMAND\n\n" ++
  "Commands:\n" ++
  "  tests FILE [--json]\n" ++
  "  at FILE LINE [--column COLUMN]\n" ++
  "  markers FILE [--json]\n" ++
  "  run FILE LINE [--mode MODE]\n" ++
  "  stub STYLE NAME [--spec SPEC]\n" ++
  "  styles\n" ++
  "  scan [DIR] [--json]\n" ++
  "  explore [DIR] [FILES]...\n" ++
  "  config"

/-- The option that every command has. -/
def configOption : String × (String → Bool) := ("--config", isPath)

/-- The form of each command. -/
def form? (command : String) : Option Form :=
  match command with
  | "tests" => some ⟨[isPath], 1, .none, [configOption], ["--json"]⟩
  | "at" => some ⟨[isPath, isNumber], 2, .none, [configOption, ("--column", isNumber)], []⟩
  | "markers" => some ⟨[isPath], 1, .none, [configOption], ["--json"]⟩
  | "run" => some ⟨[isPath, isNumber], 2, .none, [configOption, ("--mode", isAnything)], []⟩
  | "stub" =>
    some ⟨[isAnything, isAnything], 2, .none, [configOption, ("--spec", isAnything)], []⟩
  | "styles" => some ⟨[], 0, .none, [configOption], []⟩
  | "scan" => some ⟨[isPath], 0, .none, [configOption], ["--json"]⟩
  | "explore" => some ⟨[isPath], 0, some isPath, [configOption], []⟩
  | "config" => some ⟨[], 0, .none, [configOption], []⟩
  | _ => .none

namespace Given

def argument? (g : Given) (index : Nat) : Option String := g.positional.reverse[index]?

def argument (g : Given) (index : Nat) : String := (g.argument? index).getD ""

def path (g : Given) (index : Nat) : Path := ⟨g.argument index⟩

def number (g : Given) (index : Nat) : Nat := (number? (g.argument index)).getD 0

def option? (g : Given) (name : String) : Option String :=
  (g.options.find? (·.1 == name)).map (·.2)

def flag (g : Given) (name : String) : Bool := g.flags.contains name

end Given

/-- The command of the given name with what it is given. -/
def Given.toCommand (g : Given) (name : String) : Command :=
  match name with
  | "tests" => .tests (g.path 0) (g.flag "--json")
  | "at" => .at (g.path 0) (g.number 1) (((g.option? "--column").bind number?).getD 1)
  | "markers" => .markers (g.path 0) (g.flag "--json")
  | "run" => .run (g.path 0) (g.number 1) ((g.option? "--mode").getD "run")
  | "stub" => .stub (g.argument 0) (g.argument 1)
  | "styles" => .styles
  | "scan" => .scan ((g.argument? 0).map .mk) (g.flag "--json")
  | "explore" => .explore ((g.argument? 0).map .mk) ((g.positional.reverse.drop 1).map .mk)
  | _ => .config

/-- Whether the arguments of the help command are the name of at most one command. -/
def isHelpTopic : List String → Bool
  | [] => true
  | [name] => name == "help" || (form? name).isSome
  | _ => false

/-- Reads a command after its name. A configuration file given there goes before one given ahead
of the name. -/
def readCommand (config : Option Path) (name : String) (args : List String) :
    Except Refusal Arguments :=
  if name = "help" then .error (if isHelpTopic args then .help else .usage)
  else match form? name with
    | some f => do
      let g ← f.read .none args
      .ok ⟨((g.option? "--config").map .mk).or config, g.toCommand name⟩
    | .none => .error .usage

/-- Reads the arguments of the program. -/
def read (config : Option Path) : List String → Except Refusal Arguments
  | [] => .error .usage
  | arg :: args =>
    if !isOption arg then readCommand config arg args
    else if asksForHelp arg then .error .help
    else match attached? arg with
      | some (name, value) =>
        if name = "--config" ∧ isPath value ∧ config.isNone then read (some ⟨value⟩) args
        else .error .usage
      | .none =>
        if arg ≠ "--config" then .error .usage
        else match args with
          | value :: args =>
            if isOption value || !isPath value || config.isSome then .error .usage
            else read (some ⟨value⟩) args
          | [] => .error .usage

end Arguments

end SpecLens
