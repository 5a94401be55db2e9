import SpecLens.Disk.Path

/-!
# Configuration

The settings of the program, with their defaults.
-/

namespace SpecLens

/-- Which files are scanned and what is recognized in them. -/
structure DiscoveryConfig where
  extensions : List String
  /-- Names of directories that are never scanned. -/
  excludeDirs : List String
  /-- Build files that mark the root of a module. -/
  moduleMarkers : List String
  /-- Larger files are not recognized. -/
  maxFileSize : Nat
  /-- Names of styles that are switched off. -/
  disabledStyles : List String
deriving DecidableEq, Repr, Inhabited

/-- The interactive explorer. Times are in milliseconds. -/
structure ExplorerConfig where
  expandAll : Bool
  tickRate : Nat
  pollInterval : Nat
deriving DecidableEq, Repr, Inhabited

/-- How run requests become command lines. -/
structure RunConfig where
  gradleCommand : String
  testTask : String
  coverageTask : String
  debugFlag : String
deriving DecidableEq, Repr, Inhabited

/-- What is logged and where to. -/
structure LoggingConfig where
  filter : String
  file : Option String
deriving DecidableEq, Repr, Inhabited

/-- All settings. -/
structure Config where
  discovery : DiscoveryConfig
  explorer : ExplorerConfig
  run : RunConfig
  logging : LoggingConfig
deriving DecidableEq, Repr, Inhabited

def DiscoveryConfig.standard : DiscoveryConfig where
  extensions := ["kt", "kts"]
  excludeDirs := [".git", ".svn", ".hg", "build", "out", "target", "bin", ".gradle", ".kotlin",
    ".idea", ".vscode", "node_modules"]
  moduleMarkers := ["build.gradle.kts", "build.gradle", "pom.xml"]
  maxFileSize := 1024 * 1024
  disabledStyles := []

def ExplorerConfig.standard : ExplorerConfig where
  expandAll := true
  tickRate := 100
  pollInterval := 1000

def RunConfig.standard : RunConfig where
  gradleCommand := "./gradlew"
  testTask := "test"
  coverageTask := "jacocoTestReport"
  debugFlag := "--debug-jvm"

def LoggingConfig.standard : LoggingConfig where
  filter := "warn"
  file := none

def Config.standard : Config := ⟨.standard, .standard, .standard, .standard⟩

/-- Whether a path has one of the configured extensions, in upper or lower case. -/
def DiscoveryConfig.isSource (c : DiscoveryConfig) (path : Path) : Bool :=
  match path.extension? with
  | some ext => c.extensions.any fun e => e.toList.map Char.toLower == ext.toList.map Char.toLower
  | none => false

end SpecLens
