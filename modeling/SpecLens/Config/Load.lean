import SpecLens.Config.Format
import SpecLens.Disk.Basic
import SpecLens.Disk.Environment
import SpecLens.Text.Numeral
import SpecLens.Text.Split

/-!
# Loading the configuration

The configuration comes from the file of the project, else from that of the user, else from the
defaults. The environment overrides all of them.
-/

namespace SpecLens

open Text

/-- Why there is no configuration. -/
inductive ConfigError where
  | read (cause : DiskError)
  | parse
  | noExtensions
  | noTicks
deriving DecidableEq, Repr, Inhabited

def ConfigError.message : ConfigError → String
  | read cause => "Failed to read config file: " ++ cause.message
  | parse => "Failed to parse config file"
  | noExtensions => "Invalid configuration: discovery.extensions must list at least one extension"
  | noTicks => "Invalid configuration: explorer.tick_rate_ms must be greater than zero"

/-- The sizes of files are below this bound. -/
def sizeLimit : Nat := 18446744073709551616

/-- The items of a list with commas, without those that are blank. -/
def commaList (cs : List Char) : List String :=
  ((splitAt ',' cs).map trim).filterMap fun item =>
    if item.isEmpty then none else some (String.ofList item)

namespace Config

/-- The configuration with what the environment overrides. A size that is no number is passed
over. -/
def override (c : Config) (env : Environment) : Config where
  discovery := { c.discovery with
    maxFileSize :=
      ((env.value? "KTSPEC_MAX_FILE_SIZE").bind (unsigned? sizeLimit ·.toList)).getD
        c.discovery.maxFileSize
    disabledStyles :=
      ((env.value? "KTSPEC_DISABLED_STYLES").map (commaList ·.toList)).getD
        c.discovery.disabledStyles }
  explorer := c.explorer
  run := { c.run with
    gradleCommand := (env.value? "KTSPEC_GRADLE").getD c.run.gradleCommand }
  logging := {
    filter := (env.value? "KTSPEC_LOG").getD c.logging.filter
    file := (env.value? "KTSPEC_LOG_FILE").or c.logging.file }

def validate (c : Config) : Except ConfigError Config :=
  if c.discovery.extensions.isEmpty then .error .noExtensions
  else if c.explorer.tickRate = 0 then .error .noTicks
  else .ok c

/-- Loads the configuration of a file. -/
def ofFile (d : Disk) (env : Environment) (file : Path) : Except ConfigError Config := do
  let text ← (d.readText file).mapError .read
  match ofToml? text with
  | some c => (c.override env).validate
  | none => .error .parse

/-- The name of a project's configuration file. -/
def fileName : String := "ktspec.toml"

/-- Loads the configuration for the project at `root`. -/
def load (d : Disk) (env : Environment) (root : Path) : Except ConfigError Config :=
  let own := root.join ⟨fileName⟩
  if d.exists? own then ofFile d env own
  else
    match env.userFile?.filter d.exists? with
    | some file => ofFile d env file
    | none => (standard.override env).validate

end Config

end SpecLens
