import SpecLens.Config.Basic
import SpecLens.Toml.Printer
import SpecLens.Toml.Reader

/-!
# Configuration as TOML

A configuration file holds one table for each section. What it leaves out has its default and what
it adds is not looked at. `Config.toToml` writes a configuration in the same form.
-/

namespace SpecLens

open Toml

/-- A reader of one setting from its value. -/
abbrev SettingReader (α : Type) := Value → Option α

namespace Setting

def text : SettingReader String
  | .string s => some s
  | _ => none

def flag : SettingReader Bool
  | .boolean b => some b
  | _ => none

/-- A number that is not negative. -/
def count : SettingReader Nat
  | .integer (.ofNat n) => some n
  | _ => none

def texts : SettingReader (List String)
  | .array items => items.mapM text
  | _ => none

/-- The value of a setting: it is looked up by its key in a table and by its place in an array. -/
def find? (section? : Value) (key : String) (place : Nat) : Option Value :=
  match section? with
  | .table entries => (entries.find? (·.1 == key)).map (·.2)
  | .array items => items[place]?
  | _ => none

/-- Reads a setting of a section; one that is left out has its default. -/
def read (body : Value) (key : String) (place : Nat) {α : Type} (reader : SettingReader α)
    (default : α) : Option α :=
  match find? body key place with
  | some v => reader v
  | none => some default

/-- Whether a value can be a section at all. A date is one that leaves out every setting. -/
def isSection : Value → Bool
  | .table _ => true
  | .array _ => true
  | .date => true
  | _ => false

end Setting

open Setting

def DiscoveryConfig.ofToml? (v : Value) : Option DiscoveryConfig := do
  guard (isSection v)
  let standard := DiscoveryConfig.standard
  pure {
    extensions := ← read v "extensions" 0 texts standard.extensions
    excludeDirs := ← read v "exclude_dirs" 1 texts standard.excludeDirs
    moduleMarkers := ← read v "module_markers" 2 texts standard.moduleMarkers
    maxFileSize := ← read v "max_file_size" 3 count standard.maxFileSize
    disabledStyles := ← read v "disabled_styles" 4 texts standard.disabledStyles }

def ExplorerConfig.ofToml? (v : Value) : Option ExplorerConfig := do
  guard (isSection v)
  let standard := ExplorerConfig.standard
  pure {
    expandAll := ← read v "expand_all" 0 flag standard.expandAll
    tickRate := ← read v "tick_rate_ms" 1 count standard.tickRate
    pollInterval := ← read v "poll_interval_ms" 2 count standard.pollInterval }

def RunConfig.ofToml? (v : Value) : Option RunConfig := do
  guard (isSection v)
  let standard := RunConfig.standard
  pure {
    gradleCommand := ← read v "gradle_command" 0 text standard.gradleCommand
    testTask := ← read v "test_task" 1 text standard.testTask
    coverageTask := ← read v "coverage_task" 2 text standard.coverageTask
    debugFlag := ← read v "debug_flag" 3 text standard.debugFlag }

def LoggingConfig.ofToml? (v : Value) : Option LoggingConfig := do
  guard (isSection v)
  let standard := LoggingConfig.standard
  pure {
    filter := ← read v "filter" 0 text standard.filter
    file := ← read v "file" 1 (fun v => (text v).map some) standard.file }

namespace Config

/-- The settings that a document gives. -/
def ofEntries? (entries : List (String × Value)) : Option Config := do
  let v := Value.table entries
  pure {
    discovery := ← read v "discovery" 0 DiscoveryConfig.ofToml? .standard
    explorer := ← read v "explorer" 1 ExplorerConfig.ofToml? .standard
    run := ← read v "run" 2 RunConfig.ofToml? .standard
    logging := ← read v "logging" 3 LoggingConfig.ofToml? .standard }

/-- Reads the text of a configuration file. -/
def ofToml? (text : String) : Option Config :=
  (Toml.read? text.toList).bind ofEntries?

/-- The sections in the order in which they are written. -/
def sections (c : Config) : List (String × List (String × String)) := [
  ("discovery", [
    ("extensions", printArray c.discovery.extensions),
    ("exclude_dirs", printArray c.discovery.excludeDirs),
    ("module_markers", printArray c.discovery.moduleMarkers),
    ("max_file_size", toString c.discovery.maxFileSize),
    ("disabled_styles", printArray c.discovery.disabledStyles)]),
  ("explorer", [
    ("expand_all", printBool c.explorer.expandAll),
    ("tick_rate_ms", toString c.explorer.tickRate),
    ("poll_interval_ms", toString c.explorer.pollInterval)]),
  ("run", [
    ("gradle_command", printString c.run.gradleCommand),
    ("test_task", printString c.run.testTask),
    ("coverage_task", printString c.run.coverageTask),
    ("debug_flag", printString c.run.debugFlag)]),
  ("logging",
    ("filter", printString c.logging.filter) ::
      (c.logging.file.map fun file => ("file", printString file)).toList)]

/-- Whether all numbers are within the range of TOML's integers. -/
def isPrintable (c : Config) : Bool :=
  inRange c.discovery.maxFileSize && inRange c.explorer.tickRate && inRange c.explorer.pollInterval

/-- A configuration as the text of a file, empty if a number is out of range. -/
def toToml (c : Config) : String :=
  if c.isPrintable then printSections c.sections else ""

end Config

end SpecLens
