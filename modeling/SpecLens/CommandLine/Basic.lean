import SpecLens.App.Basic
import SpecLens.CommandLine.Arguments
import SpecLens.CommandLine.Report
import SpecLens.Json.Spec

/-!
# The command line

Carries out a command on a disk, up to what it prints or how it fails.
-/

namespace SpecLens

/-- Why a command fails. -/
inductive CommandError where
  | config (cause : ConfigError)
  | log (cause : DiskError)
  | load (cause : LoadError)
  | unknownMode (mode : String)
  | unknownStyle (style : String) (known : List String)
  | outsideFile (file : Path) (line column : Nat)
  | lineOutsideFile (file : Path) (line : Nat)
  | noSpec (file : Path) (line : Nat)
deriving Repr, Inhabited

def CommandError.message : CommandError → String
  | config cause => cause.message
  | log cause => cause.message
  | load cause => cause.message
  | unknownMode mode => "unknown mode '" ++ mode ++ "', expected run, debug or coverage"
  | unknownStyle style known =>
    "unknown style '" ++ style ++ "', expected one of: " ++ ", ".intercalate known
  | outsideFile file line column =>
    file.text ++ ":" ++ toString line ++ ":" ++ toString column ++ " is outside the file"
  | lineOutsideFile file line => "line " ++ toString line ++ " is outside " ++ file.text
  | noSpec file line => "no spec at " ++ file.text ++ ":" ++ toString line

/-- What a command comes to. -/
inductive Answer where
  /-- It prints a text. -/
  | text (text : String)
  /-- It hands the terminal over to the application. -/
  | app (app : App)

/-- The offset of the first character from `offset` on that is no blank, if there is one. -/
def Source.skipBlanks (src : Source) (offset : Nat) : Nat :=
  let rest := (Text.dropBytes offset src.chars).getD []
  let blanks := rest.takeWhile Text.isBlank
  if blanks.length = rest.length then offset else offset + Text.byteLength blanks

namespace Command

def loadSource (d : Discovery) (w : World) (file : Path) : Except CommandError Source :=
  (d.load w file).mapError .load

/-- Lists the specs and tests of a file. -/
def listTests (d : Discovery) (w : World) (file : Path) (json : Bool) :
    Except CommandError String := do
  let specs := d.specs (← loadSource d w file)
  .ok (if json then (Json.arr (specs.map .ofSpec)).pretty ++ "\n" else Report.specs file specs)

/-- Shows the spec and the innermost test at a position. -/
def locate (d : Discovery) (w : World) (file : Path) (line column : Nat) :
    Except CommandError String := do
  let src ← loadSource d w file
  match src.offsetAt line column with
  | none => .error (.outsideFile file line column)
  | some offset =>
    match d.enclosing src offset with
    | some location => .ok ((Json.ofLocation location).pretty ++ "\n")
    | none => .ok ("No spec at " ++ file.text ++ ":" ++ toString line ++ "\n")

/-- Lists the gutter markers of a file. -/
def listMarkers (d : Discovery) (w : World) (file : Path) (json : Bool) :
    Except CommandError String := do
  let markers := d.markers (← loadSource d w file)
  .ok (if json then (Json.arr (markers.map .ofMarker)).pretty ++ "\n"
    else String.join (markers.map Report.marker))

/-- The request to run what stands at a line: at its first text, which may be further down. -/
def requestAt (d : Discovery) (w : World) (file : Path) (line : Nat) (mode : String) :
    Except CommandError RunRequest :=
  match RunMode.read? mode with
  | none => .error (.unknownMode mode)
  | some mode => do
    let src ← loadSource d w file
    match src.offsetAt line 1 with
    | none => .error (.lineOutsideFile file line)
    | some offset =>
      match d.enclosing src (src.skipBlanks offset) with
      | none => .error (.noSpec file line)
      | some l =>
        .ok (match l.test with
          | some test => .forTest mode (some file) l.specFqn test
          | none => .forSpec mode (some file) l.specFqn line)

/-- Prints a request with its command line. -/
def printRequest (c : RunConfig) (r : RunRequest) : String :=
  r.mode.name ++ ": " ++ r.name ++ "\n" ++ (r.invocation c).shellLine ++ "\n"

/-- Prints the source of a test in a style. -/
def printStub (d : Discovery) (style name : String) : Except CommandError String :=
  match d.registry.byName? style with
  | some s => .ok (s.stub name ++ "\n")
  | none => .error (.unknownStyle style (d.registry.styles.map (·.name)))

/-- Lists the specs of a project. -/
def scanProject (c : Config) (w : World) (root : Path) (json : Bool) :
    Except CommandError String := do
  let project ← (Project.load w c.discovery root).mapError .load
  let index := ProjectIndex.scan project (.ofConfig c.discovery) w
  .ok (if json then (Json.ofIndex index).pretty ++ "\n" else Report.index index)

/-- The application at its start. Files that exist are opened under their paths without detours. -/
def startApp (c : Config) (w : World) (root : Path) (files : List Path) :
    Except CommandError App := do
  let project ← (Project.load w c.discovery root).mapError .load
  let files := files.map fun file =>
    match w.disk.canonical file with
    | .ok path => path
    | .error _ => file
  .ok (.init w c project files)

/-- The directory a command works on. -/
def root : Command → Path
  | scan directory _ => directory.getD ⟨"."⟩
  | explore directory _ => directory.getD ⟨"."⟩
  | _ => ⟨"."⟩

/-- Carries out a command other than the application. -/
def print (c : Config) (w : World) : Command → Except CommandError String
  | tests file json => listTests (.ofConfig c.discovery) w file json
  | «at» file line column => locate (.ofConfig c.discovery) w file line column
  | markers file json => listMarkers (.ofConfig c.discovery) w file json
  | run file line mode =>
    (requestAt (.ofConfig c.discovery) w file line mode).map (printRequest c.run)
  | stub style name => printStub (.ofConfig c.discovery) style name
  | styles => .ok (String.join ((Discovery.ofConfig c.discovery).registry.styles.map Report.style))
  | scan directory json => scanProject c w (directory.getD ⟨"."⟩) json
  | explore .. => .ok ""
  | config => .ok c.toToml

end Command

namespace Arguments

/-- The configuration for a command. -/
def loadConfig (a : Arguments) (w : World) : Except CommandError Config :=
  (match a.config with
    | some file => Config.ofFile w.disk w.environment file
    | none => Config.load w.disk w.environment a.command.root).mapError .config

/-- The disk after the log of the application is opened. -/
def openLog (c : Config) (d : Disk) : Except CommandError Disk :=
  match c.logging.file with
  | some file => (d.touch ⟨file⟩).mapError .log
  | none => .ok d

/-- Carries out a command: what it comes to, and the disk after it. -/
def perform (a : Arguments) (w : World) : Except CommandError Answer × Disk :=
  match a.loadConfig w with
  | .error e => (.error e, w.disk)
  | .ok c =>
    match a.command with
    | .explore directory files =>
      match openLog c w.disk with
      | .error e => (.error e, w.disk)
      | .ok disk =>
        let root := directory.getD ⟨"."⟩
        ((Command.startApp c { w with disk } root files).map .app, disk)
    | command => ((command.print c w).map .text, w.disk)

end Arguments

end SpecLens
