import SpecLens.Proofs.Disk.Reading
import SpecLens.Proofs.Explorer.Sight
import SpecLens.Proofs.Style.TokenForm

/-!
# What a refresh shows

An explorer that is not indexing shows after a refresh what a new one shows once the same file is
selected: nothing of an earlier file, of the cursor or of collapsed rows is left. When indexing
finishes, only the last of the files that waited counts.
-/

namespace SpecLens

/-- Why a file has no specs to show. -/
inductive Project.Hides (p : Project) (d : Discovery) (w : World) (file : Path) : Prop where
  | noModule (h : p.moduleOf? w.disk file = none)
  | unsupported (h : d.config.isSource file = false)
  | tooLarge (size : Nat) (h : w.disk.size file = .ok size) (hlimit : d.config.maxFileSize < size)
  | unreadable (cause : DiskError) (h : w.disk.readText file = .error cause)

lemma Project.hides_iff {p : Project} {d : Discovery} {w : World} {file : Path} :
    p.Hides d w file ↔
      p.moduleOf? w.disk file = none ∨ ∃ error, d.load w file = .error error := by
  rw [Discovery.exists_load_error_iff]
  constructor
  · rintro (h | h | ⟨size, h, hlimit⟩ | ⟨cause, h⟩)
    · exact .inl h
    · exact .inr (.inl h)
    · exact .inr (.inr (.inl ⟨size, h, hlimit⟩))
    · exact .inr (.inr (.inr ⟨cause, h⟩))
  · rintro (h | h | ⟨size, h, hlimit⟩ | ⟨cause, h⟩)
    · exact .noModule h
    · exact .unsupported h
    · exact .tooLarge size h hlimit
    · exact .unreadable cause h

namespace Explorer

variable {e f : Explorer} {w : World} {file : Path}

/-- Some changed file has the name of the selected one. -/
def Concerns (e : Explorer) (changed : List Path) : Prop :=
  ∃ file, e.selectedFile = some file ∧ ∃ path ∈ changed, path.fileName? = file.fileName?

/-- The events that rebuild the outline of the selected file. -/
def Rebuilds (e : Explorer) : Event → Prop
  | .refresh => True
  | .select file => file = e.selectedFile
  | .filesChanged changed => e.Concerns changed
  | _ => False

lemma outlineOf_congr (h : e.SameSetting f) (w : World) (file : Path) :
    e.outlineOf w file = f.outlineOf w file := by
  obtain ⟨hproject, hdiscovery, hexpanded⟩ := h
  rw [outlineOf, outlineOf, hproject, hdiscovery, hexpanded]

/-- Exactly the files that are hidden have no rows. -/
lemma outlineOf_eq_empty_iff :
    e.outlineOf w file = .empty ↔ e.project.Hides e.discovery w file := by
  rw [Project.hides_iff, outlineOf]
  cases e.project.moduleOf? w.disk file with
  | none => simp
  | some m =>
    rw [Discovery.specsOfFile]
    cases e.discovery.load w file <;> cases e.startsExpanded <;>
      simp [Except.map, Outline.empty, Outline.build, Outline.expandAll, Outline.collapseAll]

/-- The outline of a selection: without a file it is empty. -/
def outlineOfSelection (e : Explorer) (w : World) (selected : Option Path) : Outline :=
  match selected with
  | none => .empty
  | some file => e.outlineOf w file

lemma outlineOfSelection_congr (h : e.SameSetting f) (w : World) (selected : Option Path) :
    e.outlineOfSelection w selected = f.outlineOfSelection w selected := by
  cases selected with
  | none => rfl
  | some file => exact outlineOf_congr h w file

lemma outlineOfSelection_eq_empty_iff {selected : Option Path} :
    e.outlineOfSelection w selected = .empty ↔
      ∀ file ∈ selected, e.project.Hides e.discovery w file := by
  cases selected with
  | none => simp [outlineOfSelection]
  | some file => simpa [outlineOfSelection] using outlineOf_eq_empty_iff

/-- Without indexing, the outline after a refresh depends on nothing but the selected file. -/
lemma outline_refresh (h : e.gate.indexing = false) :
    (e.refresh w).outline = e.outlineOfSelection w e.selectedFile := by
  unfold refresh outlineOfSelection
  cases e.selectedFile with
  | none => rfl
  | some file =>
    dsimp only
    cases hmodule : e.project.moduleOf? w.disk file with
    | none =>
      have hempty : e.outlineOf w file = .empty := outlineOf_eq_empty_iff.mpr (.noModule hmodule)
      simpa using hempty.symm
    | some m =>
      simp only [Gate.submit, h]
      rfl

/-- An event that rebuilds the outline does so by a refresh. -/
lemma Rebuilds.handle_eq {event : Event} (h : e.Rebuilds event) :
    e.handle w event = e.refresh w := by
  cases event with
  | refresh => rfl
  | select file =>
    cases h
    rfl
  | filesChanged changed =>
    obtain ⟨file, hfile, path, hpath, hname⟩ := h
    rw [handle, filesChanged, hfile]
    exact if_pos (List.any_eq_true.mpr ⟨path, hpath, by simp [hname]⟩)
  | beginIndexing => exact h.elim
  | indexingFinished => exact h.elim
  | move m => exact h.elim

lemma belongs_refresh (h : e.gate.indexing = false) : (e.refresh w).Belongs := by
  rw [Belongs, outline_refresh h, selectedFile_refresh]
  cases e.selectedFile with
  | none => exact .inl rfl
  | some file => exact top?_outlineOf e w file

/-- When indexing finishes, the last file that waited is shown. -/
lemma outline_indexingFinished (h : e.gate.queue.getLast? = some file) :
    (e.indexingFinished w).outline = e.outlineOf w file := by
  rw [indexingFinished_eq, h]

/-- What is shown once the outline of the selected file is rebuilt is told by that file and the
world as it is, whatever an explorer has been through: it is what a new explorer shows of the file,
and two explorers show the same. When indexing finishes, the last file that waited is shown as if it
were the only one. -/
theorem refresh_forgets_history (project : Project) (discovery : Discovery)
    (config : ExplorerConfig) (events events' : List (World × Event)) (w : World) :
    let new := init project discovery config
    let e := new.run events
    let f := new.run events'
    (e.gate.indexing = false → f.gate.indexing = false → e.selectedFile = f.selectedFile →
      ∀ event event', e.Rebuilds event → f.Rebuilds event' →
        (e.handle w event).outline = (f.handle w event').outline ∧
        (e.handle w event).outline = (new.select w e.selectedFile).outline ∧
        (e.handle w event).Belongs ∧
        ((e.handle w event).outline = .empty ↔
          ∀ file ∈ e.selectedFile, project.Hides discovery w file)) ∧
    ∀ last ∈ e.gate.queue.getLast?,
      (e.indexingFinished w).outline = (e.render w last).outline ∧
      (e.indexingFinished w).outline = (new.render w last).outline := by
  intro new e f
  have hsetting : e.SameSetting new := run_sameSetting new events
  have hsetting' : f.SameSetting new := run_sameSetting new events'
  constructor
  · intro hidle hidle' hselected event event' hevent hevent'
    have hfresh : (e.handle w event).outline = new.outlineOfSelection w e.selectedFile := by
      rw [hevent.handle_eq, outline_refresh hidle, outlineOfSelection_congr hsetting]
    have hfresh' : (f.handle w event').outline = new.outlineOfSelection w f.selectedFile := by
      rw [hevent'.handle_eq, outline_refresh hidle', outlineOfSelection_congr hsetting']
    refine ⟨?_, ?_, ?_, ?_⟩
    · rw [hfresh, hfresh', hselected]
    · have hnew : (new.select w e.selectedFile).outline = new.outlineOfSelection w e.selectedFile :=
        outline_refresh (e := { new with selectedFile := e.selectedFile }) rfl
      rw [hfresh, hnew]
    · rw [hevent.handle_eq]
      exact belongs_refresh hidle
    · rw [hfresh]
      exact outlineOfSelection_eq_empty_iff
  · intro last hlast
    have hshown : (e.indexingFinished w).outline = e.outlineOf w last :=
      outline_indexingFinished (Option.mem_def.mp hlast)
    exact ⟨hshown, hshown.trans (outlineOf_congr hsetting w last)⟩

/-- A spec with one test. -/
def singleTest : Source where
  chars := "object S : io.kotest.core.spec.style.FunSpec(\x7b test(\"t\") \x7b \x7d \x7d)".toList
  root := .rule "source_file" 0 63 [
    .rule "object_declaration" 0 63 [
      .fixed "object" 0,
      .title 7 8,
      .fixed ":" 9,
      .rule "delegation_specifiers" 11 63 [
        .rule "delegation_specifier" 11 63 [
          .rule "constructor_invocation" 11 63 [
            .rule "user_type" 11 44 [
              .identifier 11 13, .fixed "." 13, .identifier 14 20, .fixed "." 20,
              .identifier 21 25, .fixed "." 25, .identifier 26 30, .fixed "." 30,
              .identifier 31 36, .fixed "." 36, .identifier 37 44],
            .rule "value_arguments" 44 63 [
              .fixed "(" 44,
              .rule "value_argument" 45 62 [
                .rule "lambda_literal" 45 62 [.fixed "\x7b" 45, test, .fixed "\x7d" 61]],
              .fixed ")" 62]]]]]]
where
  test : Node :=
    .rule "call_expression" 47 60 [
      .rule "call_expression" 47 56 [.identifier 47 51, .literalArgument 51 56],
      .rule "annotated_lambda" 57 60 [
        .rule "lambda_literal" 57 60 [.fixed "\x7b" 57, .fixed "\x7d" 59]]]

/-- A file with this spec beside one without any text. -/
def singleTestWorld : World where
  disk := ⟨[(["p"], .directory), (["p", "A.kt"], .file (Text.toBytes singleTest.chars)),
    (["p", "B.kt"], .file [])], []⟩
  environment := []
  grammar text := if text.isEmpty then .rule "source_file" 0 0 [] else singleTest.root

/-- A file that was selected while indexing and then collapsed is shown as one that replaces another
selection, with its module, its spec and its test, however the two are rebuilt. Of two files that
waited the second is shown. -/
theorem refresh_forgets_collapse_and_wait :
    let new := init oneFileProject (.ofConfig .standard) .standard
    let w := singleTestWorld
    let wait := [(w, .beginIndexing), (w, .select (some ⟨"/p/B.kt"⟩)),
      (w, .select (some ⟨"/p/A.kt"⟩))]
    let e := new.run (wait ++ [(w, .indexingFinished), (w, .move .next), (w, .move .collapseAll)])
    let f := new.run [(w, .select (some ⟨"/p/B.kt"⟩)), (w, .select (some ⟨"/p/A.kt"⟩))]
    ((e.gate.indexing = false ∧ f.gate.indexing = false ∧ e.selectedFile = f.selectedFile ∧
      e.Rebuilds .refresh ∧ f.Rebuilds (.filesChanged [⟨"/q/A.kt"⟩])) ∧
      (e.refresh w).outline = (f.filesChanged w [⟨"/q/A.kt"⟩]).outline ∧
      (e.refresh w).outline.rows.length = 4 ∧ e.outline.rows.length = 1) ∧
    ⟨"/p/A.kt"⟩ ∈ (new.run wait).gate.queue.getLast? ∧
      ((new.run wait).indexingFinished w).outline = (new.render w ⟨"/p/A.kt"⟩).outline := by
  intro new w wait e f
  have hidle : e.gate.indexing = false := by decide +kernel
  have hidle' : f.gate.indexing = false := by decide +kernel
  have hselected : e.selectedFile = f.selectedFile := by decide +kernel
  have hconcerns : f.Concerns [⟨"/q/A.kt"⟩] :=
    ⟨⟨"/p/A.kt"⟩, by decide +kernel, ⟨"/q/A.kt"⟩, by simp, by decide +kernel⟩
  have hlast : ⟨"/p/A.kt"⟩ ∈ (new.run wait).gate.queue.getLast? := by decide +kernel
  have hsame := (refresh_forgets_history oneFileProject _ _ _ _ w).1 hidle hidle' hselected
    .refresh (.filesChanged [⟨"/q/A.kt"⟩]) trivial hconcerns
  have hshown := (refresh_forgets_history oneFileProject _ _ wait [] w).2 ⟨"/p/A.kt"⟩ hlast
  have hrows : (e.refresh w).outline.rows.length = 4 ∧ e.outline.rows.length = 1 := by
    decide +kernel
  exact ⟨⟨⟨hidle, hidle', hselected, trivial, hconcerns⟩, hsame.1, hrows⟩, hlast, hshown.2⟩

end Explorer

end SpecLens
