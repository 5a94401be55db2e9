import SpecLens.CommandLine.Basic
import SpecLens.Proofs.Disk.Reading
import SpecLens.Proofs.Explorer.Request
import SpecLens.Proofs.Spec.Opening
import SpecLens.Proofs.Text.Line

/-!
# Requests from the command line

On the command line a test is named by its line, in the explorer it is selected. The line leads to
its first text, which is the start of the test, and from there to the test: so both make the same
request.
-/

namespace SpecLens

namespace Source

open Text

variable {src : Source} {offset : Nat}

/-- The character at an offset is the first one on its line that is no blank. -/
def StartsLine (src : Source) (offset : Nat) : Prop :=
  ∃ before blanks c after, src.chars = before ++ blanks ++ c :: after ∧
    (before = [] ∨ before.getLast? = some '\n') ∧
    (∀ b ∈ blanks, isBlank b = true ∧ b ≠ '\n') ∧ isBlank c = false ∧
    byteLength (before ++ blanks) = offset

/-- Blanks are skipped up to the first other character. -/
lemma skipBlanks_eq {before blanks after : List Char} {c : Char}
    (hchars : src.chars = before ++ (blanks ++ c :: after))
    (hblanks : ∀ b ∈ blanks, isBlank b = true) (hc : isBlank c = false) :
    src.skipBlanks (byteLength before) = byteLength (before ++ blanks) := by
  have htake : (blanks ++ c :: after).takeWhile isBlank = blanks := by
    rw [List.takeWhile_append_of_pos hblanks, List.takeWhile_cons_of_neg (by simp [hc]),
      List.append_nil]
  rw [Source.skipBlanks, hchars, dropBytes_append, Option.getD_some, htake, byteLength_append]
  simp

/-- Where a line starts with blanks and then a text, its number leads to the text. -/
theorem StartsLine.skipBlanks (h : src.StartsLine offset) :
    ∃ start, src.offsetAt (Position.ofOffset src.bytes offset).line 1 = some start ∧
      src.skipBlanks start = offset := by
  obtain ⟨before, blanks, c, after, hchars, hbefore, hblanks, hc, rfl⟩ := h
  rw [List.append_assoc] at hchars
  have hline : (Position.ofOffset src.bytes (byteLength (before ++ blanks))).line =
      1 + before.count '\n' := by
    have htake : src.bytes.take (byteLength (before ++ blanks)) = toBytes (before ++ blanks) := by
      rw [bytes, hchars, ← List.append_assoc, toBytes_append, ← length_toBytes, List.take_left']
      rfl
    have hnone : blanks.count '\n' = 0 := List.count_eq_zero.mpr fun hmem => (hblanks _ hmem).2 rfl
    rw [Position.ofOffset, htake, count_toBytes, List.count_append, hnone, Nat.add_zero]
  refine ⟨byteLength before, ?_, skipBlanks_eq hchars (fun b hb => (hblanks b hb).1) hc⟩
  rw [offsetAt, hline, bytes, hchars]
  exact offsetOf?_toBytes hbefore (by simp)

end Source

namespace Command

variable {d : Discovery} {w : World} {file : Path} {src : Source} {t : Test}

/-- The line of a test leads to this test where the first byte of the test does and the test is the
first text on its line. -/
lemma requestAt_of_enclosing {name fqn style text : String} {mode : RunMode}
    (hload : d.load w file = .ok src) (hmode : RunMode.read? text = some mode)
    (hline : src.StartsLine t.anchor.startByte)
    (hnumber : t.anchor.line = (Text.Position.ofOffset src.bytes t.anchor.startByte).line)
    (hfound : d.enclosing src t.anchor.startByte = some ⟨name, fqn, style, some t⟩) :
    requestAt d w file t.anchor.line text = .ok (.forTest mode (some file) fqn t) := by
  obtain ⟨start, hoffset, hskip⟩ := hline.skipBlanks
  rw [← hnumber] at hoffset
  simp only [requestAt, hmode, loadSource, hload, mapError_ok, bind, Except.bind, hoffset,
    hskip, hfound]

end Command

namespace Explorer

variable {e : Explorer} {w : World} {file : Path}

/-- What the selected row stands for. -/
def selectedItem? (e : Explorer) : Option RowItem := e.outline.selectedRow?.map Branch.item

/-- The rows of a file are shown, whichever of them are expanded or selected. -/
def Displays (e : Explorer) (w : World) (file : Path) : Prop :=
  e.outline.contents = (e.outlineOf w file).contents

lemma runSelected_of_selectedItem? {item : RowItem} (h : e.selectedItem? = some item)
    (mode : RunMode) : e.runSelected mode = item.request? mode e.selectedFile := by
  obtain ⟨row, hrow, rfl⟩ := Option.map_eq_some_iff.mp h
  rw [runSelected_eq, hrow, Option.bind_some]

lemma displays_select (h : e.gate.indexing = false) (w : World) (file : Path) :
    (e.select w (some file)).Displays w file := by
  have hrows := contents_refresh_of_idle (e := { e with selectedFile := some file }) (w := w) h
  have hsame := rowsOf_congr (refresh_sameSetting { e with selectedFile := some file } w)
    (some ⟨w, file⟩)
  exact hrows.trans hsame.symm

/-- The row of each test of a file that is shown can be selected. -/
lemma exists_moves_selectedItem? {src : Source} {spec : Spec} {t : Test}
    (hshown : e.Displays w file) (hload : e.discovery.load w file = .ok src)
    (hmodule : (e.project.moduleOf? w.disk file).isSome = true)
    (hspec : spec ∈ e.discovery.specs src) (ht : t ∈ spec.allTests) :
    ∃ ms, (e.moves ms).selectedItem? = some (.test spec.fqn t) := by
  obtain ⟨m, hm⟩ := Option.isSome_iff_exists.mp hmodule
  have hspecs : e.discovery.specsOfFile w file = .ok (e.discovery.specs src) := by
    rw [Discovery.specsOfFile, hload]
    rfl
  have hitems : e.outline.items = (Outline.build file m.name (e.discovery.specs src)).items := by
    apply Outline.items_congr
    rw [hshown, contents_outlineOf, hm, hspecs]
  have hmem : .test spec.fqn t ∈ e.outline.items := by
    rw [hitems, Outline.items_build]
    refine List.mem_cons_of_mem _ (List.mem_cons_of_mem _ (List.mem_flatMap.mpr ⟨spec, hspec, ?_⟩))
    exact List.mem_cons_of_mem _ (List.mem_map_of_mem ht)
  obtain ⟨index, row, hrow, hitem⟩ := Outline.exists_move_of_mem_items hmem
  have hselected : (e.moves [.expandAll, .select index]).outline.selectedRow? = some row := hrow
  exact ⟨[.expandAll, .select index], by rw [selectedItem?, hselected, Option.map_some, hitem]⟩

end Explorer

/-- The command line makes a request for a test at its line, if the test is the first text there.
Wherever the file is shown, the row of the test can be selected, and the request for this row is the
same but for the path under which the file was selected. -/
theorem requestAt_eq_runSelected {c : DiscoveryConfig} {w : World} {file : Path} {src : Source}
    {spec : Spec} {t : Test} {mode : RunMode} {text : String}
    (hload : (Discovery.ofConfig c).load w file = .ok src) (h : src.WellNested)
    (hstarts : src.TokenStarts) (hspec : spec ∈ (Discovery.ofConfig c).specs src)
    (ht : t ∈ spec.allTests) (hline : src.StartsLine t.anchor.startByte)
    (hmode : RunMode.read? text = some mode) :
    ∃ r, Command.requestAt (.ofConfig c) w file t.anchor.line text = .ok r ∧ r.mode = mode ∧
      r.specFqn = spec.fqn ∧ r.testPath = t.stablePath ∧ r.line = t.anchor.line ∧
      ∀ (e : Explorer) (shown : Path), e.discovery = .ofConfig c →
        (Discovery.ofConfig c).load w shown = .ok src →
        (e.project.moduleOf? w.disk shown).isSome = true → e.Displays w shown →
        (∃ ms, (e.moves ms).selectedItem? = some (.test spec.fqn t)) ∧
        ∀ ms, (e.moves ms).selectedItem? = some (.test spec.fqn t) →
          (e.moves ms).runSelected mode = some { r with file := e.selectedFile } := by
  refine ⟨.forTest mode (some file) spec.fqn t, ?_, rfl, rfl, rfl, rfl, ?_⟩
  · rw [Discovery.specs_eq_map_owners] at hspec
    obtain ⟨⟨decl, s⟩, ho, rfl⟩ := List.mem_map.mp hspec
    have hworded := Style.builtin_worded s (Discovery.mem_builtin_of_mem_owners ho)
    have hnumber : t.anchor.line = (Text.Position.ofOffset src.bytes t.anchor.startByte).line := by
      obtain ⟨n, -, hn⟩ := (Discovery.mem_allTests h (Discovery.mem_owners.mp ho).1).mp ht
      rw [Style.anchor_of_test? hn]
      rfl
    exact Command.requestAt_of_enclosing hload hmode hline hnumber
      (Discovery.enclosing_of_mem_allTests h hstarts hworded ho ht)
  · intro e shown hdiscovery hshown hmodule hdisplays
    constructor
    · rw [← hdiscovery] at hshown hspec
      exact Explorer.exists_moves_selectedItem? hdisplays hshown hmodule hspec ht
    · intro ms hselected
      exact Explorer.runSelected_of_selectedItem? hselected mode

namespace Explorer

lemma load_twoFileWorld :
    (Discovery.ofConfig .standard).load twoFileWorld ⟨"/p/A.kt"⟩ = .ok hiddenTest := by
  have hload : (Discovery.ofConfig .standard).load twoFileWorld ⟨"/p/A.kt"⟩ =
      .ok (.ofText twoFileWorld.grammar (String.ofList hiddenTest.chars)) :=
    Discovery.load_of_entry (by decide +kernel) (by decide +kernel) (by decide +kernel)
  have hgrammar : twoFileWorld.grammar (String.ofList hiddenTest.chars) = hiddenTest.root := by
    have hfilled : (String.ofList hiddenTest.chars).isEmpty = false := by decide +kernel
    simp only [twoFileWorld, hfilled, Bool.false_eq_true, if_false]
  rw [hload, Source.ofText, hgrammar, String.toList_ofList]

end Explorer

lemma hiddenTest_tokenStarts : hiddenTest.TokenStarts where
  names := by decide
  literals := by decide

lemma hiddenTest_startsLine : hiddenTest.StartsLine 62 := by
  have hline : (hiddenTest.chars.drop 61).take 2 = [' ', 'c'] := by decide
  have hrest : hiddenTest.chars.drop 61 = [' '] ++ 'c' :: hiddenTest.chars.drop 63 := by
    rw [← List.take_append_drop 2 (hiddenTest.chars.drop 61), hline, List.drop_drop]
    rfl
  refine ⟨hiddenTest.chars.take 61, [' '], 'c', hiddenTest.chars.drop 63, ?_, .inr ?_, ?_, ?_, ?_⟩
  · rw [List.append_assoc, ← hrest, List.take_append_drop]
  · decide
  · intro b hb
    rw [List.mem_singleton.mp hb]
    decide
  · decide
  · decide

/-- The container of the file is run by its line as it is from its row. -/
theorem run_container_by_line :
    let e := (Explorer.init Explorer.oneFileProject (.ofConfig .standard) .standard).select
      Explorer.twoFileWorld (some ⟨"/p/A.kt"⟩)
    (Discovery.ofConfig .standard).load Explorer.twoFileWorld ⟨"/p/A.kt"⟩ = .ok hiddenTest ∧
      hiddenTest.WellNested ∧ hiddenTest.TokenStarts ∧
      e.Displays Explorer.twoFileWorld ⟨"/p/A.kt"⟩ ∧
      ∃ spec ∈ (Discovery.ofConfig .standard).specs hiddenTest, ∃ t ∈ spec.allTests,
        hiddenTest.StartsLine t.anchor.startByte ∧
        ∃ r ms, Command.requestAt (.ofConfig .standard) Explorer.twoFileWorld ⟨"/p/A.kt"⟩
            t.anchor.line "run" = .ok r ∧
          (e.moves ms).runSelected .run = some { r with file := e.selectedFile } := by
  intro e
  have hfound : ∃ spec ∈ (Discovery.ofConfig .standard).specs hiddenTest,
      ∃ t ∈ spec.allTests, t.anchor.startByte = 62 := by decide +kernel
  obtain ⟨spec, hspec, t, ht, hstart⟩ := hfound
  have hline : hiddenTest.StartsLine t.anchor.startByte := hstart ▸ hiddenTest_startsLine
  have hshown : e.Displays Explorer.twoFileWorld ⟨"/p/A.kt"⟩ := Explorer.displays_select rfl _ _
  have hmodule : (e.project.moduleOf? Explorer.twoFileWorld.disk ⟨"/p/A.kt"⟩).isSome = true := by
    decide +kernel
  have hdiscovery : e.discovery = .ofConfig .standard :=
    (Explorer.refresh_sameSetting _ Explorer.twoFileWorld).2.1
  have hmode : RunMode.read? "run" = some .run := by decide +kernel
  obtain ⟨r, hr, -, -, -, -, hrows⟩ := requestAt_eq_runSelected Explorer.load_twoFileWorld
    hiddenTest_wellNested hiddenTest_tokenStarts hspec ht hline hmode
  obtain ⟨⟨ms, hselected⟩, hrequest⟩ :=
    hrows e ⟨"/p/A.kt"⟩ hdiscovery Explorer.load_twoFileWorld hmodule hshown
  exact ⟨Explorer.load_twoFileWorld, hiddenTest_wellNested, hiddenTest_tokenStarts, hshown, spec,
    hspec, t, ht, hline, r, ms, hr, hrequest ms hselected⟩

end SpecLens
