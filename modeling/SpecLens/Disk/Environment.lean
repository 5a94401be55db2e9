import SpecLens.Disk.Path

/-!
# Environment variables

The variables that the program is started with, and the directories and files that they name.
-/

namespace SpecLens

/-- The environment variables with their values. -/
abbrev Environment := List (String × String)

namespace Environment

/-- The names of the variables that the program looks at. -/
def names : List String := ["KTSPEC_MAX_FILE_SIZE", "KTSPEC_DISABLED_STYLES", "KTSPEC_GRADLE",
  "KTSPEC_LOG", "KTSPEC_LOG_FILE", "XDG_CONFIG_HOME", "HOME", "GIT_CONFIG_GLOBAL"]

/-- The value of a variable; a later entry of the same name takes precedence. -/
def value? (env : Environment) (name : String) : Option String :=
  (env.reverse.find? (·.1 == name)).map (·.2)

/-- The home directory. -/
def home? (env : Environment) : Option Path := (env.value? "HOME").map .mk

/-- The directory for configuration: the one that is set, if it suits, or else the one in the home
directory. -/
def configDirectory? (env : Environment) (suits home : Path → Bool) : Option Path :=
  (((env.value? "XDG_CONFIG_HOME").map .mk).filter suits).or
    ((env.home?.filter home).map fun h => h.join ⟨".config"⟩)

/-- The user's configuration file. A directory for configuration counts only if it is absolute, and
the home directory if it is not empty. -/
def userFile? (env : Environment) : Option Path :=
  (env.configDirectory? Path.isAbsolute fun h => !h.text.isEmpty).map fun d =>
    d.join ⟨"ktspec/config.toml"⟩

/-- The user's directory for version control, wherever the variables place it. -/
def gitDirectory? (env : Environment) : Option Path :=
  (env.configDirectory? (fun d => !d.text.isEmpty) fun _ => true).map fun d => d.join ⟨"git"⟩

/-- The user's configuration files for version control, the first of which takes precedence. -/
def gitConfigFiles (env : Environment) : List Path :=
  match env.value? "GIT_CONFIG_GLOBAL" with
  | some file => [⟨file⟩]
  | none =>
    (env.home?.map fun h => h.join ⟨".gitconfig"⟩).toList ++
      (env.gitDirectory?.map fun d => d.join ⟨"config"⟩).toList

end Environment

end SpecLens
