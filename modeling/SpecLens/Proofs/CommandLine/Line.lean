import SpecLens.Proofs.CommandLine.Request
import SpecLens.Proofs.Spec.Growth
import SpecLens.Proofs.Spec.Innermost

/-!
# Runs by a line

A run by a line is meant for what stands on that line. The search for it starts at the first text
from the start of the line on. Where the line has a text, whatever is found there lies on the line.
Where it has nothing but blanks, the search goes on into the lines below, and what begins there is
run in its place.
-/

namespace SpecLens

open Kotlin Place Text

/-- A place has a byte of the line that takes up `row` behind `before`. -/
def Place.Meets (p : Place) (before row : List Char) : Prop :=
  ∃ offset, byteLength before ≤ offset ∧ offset < byteLength (before ++ row) ∧
    p.node.covers offset = true

namespace Source

/-- Nothing but blanks stands on a line, and a place begins further down. -/
def BelowBlank (src : Source) (line : Nat) (row : List Char) (p : Place) : Prop :=
  (∀ c ∈ row, isBlank c = true) ∧ line < (src.anchorOf p).line

variable {src : Source} {line : Nat} {before row after : List Char} {p : Place}

/-- The first text of a line lies on it. -/
lemma skipBlanks_of_text (h : LineAt src.chars line before row after)
    (htext : ∃ c ∈ row, isBlank c = false) :
    byteLength before ≤ src.skipBlanks (byteLength before) ∧
      src.skipBlanks (byteLength before) < byteLength (before ++ row) := by
  have hsome : (row.find? (!isBlank ·)).isSome = true := by simpa using htext
  obtain ⟨c, hfound⟩ := Option.isSome_iff_exists.mp hsome
  obtain ⟨hc, blanks, rest, rfl, hblanks⟩ := List.find?_eq_some_iff_append.mp hfound
  have hchars : src.chars = before ++ (blanks ++ c :: (rest ++ after)) := by
    rw [h.split]
    simp
  have hpos : 0 < byteLength (c :: rest) := Nat.add_pos_left c.utf8Size_pos _
  rw [skipBlanks_eq hchars (by simpa using hblanks) (by simpa using hc), byteLength_append,
    byteLength_append, byteLength_append]
  omega

/-- From a line without a text the search leaves the line unless no text follows at all. -/
lemma skipBlanks_of_blank (h : LineAt src.chars line before row after)
    (hblank : ∀ c ∈ row, isBlank c = true) :
    src.skipBlanks (byteLength before) = byteLength before ∨
      row.getLast? = some '\n' ∧
        byteLength (before ++ row) ≤ src.skipBlanks (byteLength before) := by
  have hrest : (dropBytes (byteLength before) src.chars).getD [] = row ++ after := by
    rw [h.split, List.append_assoc, dropBytes_append, Option.getD_some]
  rw [skipBlanks, hrest, List.takeWhile_append_of_pos hblank]
  split
  case isTrue => exact .inl rfl
  case isFalse hmore =>
    refine .inr ⟨h.ends.resolve_right ?_, ?_⟩
    · rintro rfl
      simp at hmore
    · rw [byteLength_append, byteLength_append]
      omega

/-- What stands where the search starts has a byte of the line unless the line has no text and it
begins further down. -/
lemma meets_iff (h : LineAt src.chars line before row after)
    (hp : p.node.covers (src.skipBlanks (byteLength before)) = true) :
    p.Meets before row ↔ ¬src.BelowBlank line row p := by
  have hline : (src.anchorOf p).line = (Position.ofOffset (toBytes src.chars) p.start).line := rfl
  obtain ⟨hstart, hstop⟩ := covers_iff.mp hp
  by_cases hblank : ∀ c ∈ row, isBlank c = true
  · rw [BelowBlank, not_and, hline, Nat.not_lt, imp_iff_right hblank]
    rcases skipBlanks_of_blank h hblank with heq | ⟨hbreak, hpast⟩
    · have hrow := h.byteLength_lt
      rw [heq] at hp hstart
      exact iff_of_true ⟨_, Nat.le_refl _, hrow, hp⟩ (h.line_le (by omega))
    · constructor
      · rintro ⟨offset, -, hlt, hoffset⟩
        have := (covers_iff.mp hoffset).1
        exact h.line_le (by omega)
      · intro hle
        have hlt : p.start < byteLength (before ++ row) := by
          by_contra hge
          have := h.lt_line hbreak (Nat.not_lt.mp hge)
          omega
        have hrow := h.byteLength_lt
        refine ⟨max p.start (byteLength before), by omega, by omega, covers_iff.mpr ?_⟩
        omega
  · have htext : ∃ c ∈ row, isBlank c = false := by simpa using hblank
    obtain ⟨hle, hlt⟩ := skipBlanks_of_text h htext
    exact iff_of_true ⟨_, hle, hlt, hp⟩ fun hboth => hblank hboth.1

end Source

namespace Command

open Discovery

/-- A run by a line asks for the innermost spec around the first text from the line on and for the
innermost test in it. Each has a byte of the line, its break included, unless nothing but blanks
stands there and it begins further down. -/
theorem requestAt_meets_line_iff {d : Discovery} {w : World} {file : Path} {src : Source}
    {line : Nat} {text : String} {r : RunRequest} (hload : d.load w file = .ok src)
    (h : src.WellNested) (hr : requestAt d w file line text = .ok r) :
    ∃ before row after offset decl s, LineAt src.chars line before row after ∧
      src.skipBlanks (byteLength before) = offset ∧
      (decl, s) ∈ d.owners src ∧ Innermost (d.Owned src offset) decl.place ∧
      r.specFqn = decl.fqn ∧ (decl.place.Meets before row ↔ ¬src.BelowBlank line row decl.place) ∧
      ((∃ n t, Innermost (Recognized src decl s offset) n ∧ s.test? src n = some t ∧
          r.testPath = t.stablePath ∧ r.line = t.anchor.line ∧
          (n.Meets before row ↔ ¬src.BelowBlank line row n)) ∨
        (∀ n, ¬Recognized src decl s offset n) ∧ r.testPath = [] ∧ r.line = line) := by
  rw [requestAt] at hr
  split at hr
  case h_1 => cases hr
  case h_2 mode hmode =>
    simp only [loadSource, hload, mapError_ok, bind, Except.bind] at hr
    split at hr
    case h_1 => cases hr
    case h_2 start hstart =>
      obtain ⟨before, row, after, hline, rfl⟩ := exists_lineAt_of_offsetOf? hstart
      split at hr
      case h_1 => cases hr
      case h_2 loc hloc =>
        obtain ⟨⟨decl, s⟩, howner, rfl⟩ := Option.map_eq_some_iff.mp hloc
        obtain ⟨ho, hinner⟩ := (owner?_eq_some_iff h).mp howner
        obtain ⟨hdecl, hcovers, -⟩ := owner?_eq_some howner
        have hmeets := Source.meets_iff hline hcovers
        dsimp only at hr
        refine ⟨before, row, after, _, decl, s, hline, rfl, ho, hinner, ?_⟩
        rcases (testAt?_eq_iff (s := s) h hdecl hcovers).mp rfl with ⟨n, hn, ht⟩ | ⟨hnone, ht⟩
        · obtain ⟨t, hnt⟩ := Option.isSome_iff_exists.mp hn.1.2.2.2
          rw [ht, hnt] at hr
          cases hr
          exact ⟨rfl, hmeets, .inl ⟨n, t, hn, hnt, rfl, rfl, Source.meets_iff hline hn.1.2.2.1⟩⟩
        · rw [ht] at hr
          cases hr
          exact ⟨rfl, hmeets, .inr ⟨hnone, rfl, rfl⟩⟩

end Command

/-- A spec behind an empty line. -/
def spacedSpec : Source where
  chars := "import io.kotest.core.spec.style.FunSpec\n".toList ++ ['\n'] ++
    "class S : FunSpec()\n".toList
  -- The import is written as in `hiddenTest`.
  root := .rule "source_file" 0 62
    (hiddenTest.root.children.take 1 ++ [.subclass 42 49 59 61 []])

lemma spacedSpec_wellNested : spacedSpec.WellNested where
  inText := by decide +kernel
  ranged := by decide +kernel
  inside := by decide +kernel
  ordered := by decide +kernel
  tokens := by decide +kernel

/-- The only file of a world. -/
def spacedWorld : World where
  disk := ⟨[(["p"], .directory), (["p", "A.kt"], .file (toBytes spacedSpec.chars))], []⟩
  environment := []
  grammar _ := spacedSpec.root

lemma load_spacedWorld :
    (Discovery.ofConfig .standard).load spacedWorld ⟨"/p/A.kt"⟩ = .ok spacedSpec := by
  have hload : (Discovery.ofConfig .standard).load spacedWorld ⟨"/p/A.kt"⟩ =
      .ok (.ofText spacedWorld.grammar (String.ofList spacedSpec.chars)) :=
    Discovery.load_of_entry (by decide +kernel) (by decide +kernel) (by decide +kernel)
  rw [hload, Source.ofText, String.toList_ofList]
  rfl

lemma requestAt_spacedWorld {line start : Nat} (hstart : spacedSpec.offsetAt line 1 = some start)
    (hskip : spacedSpec.skipBlanks start = 42) :
    Command.requestAt (.ofConfig .standard) spacedWorld ⟨"/p/A.kt"⟩ line "run" =
      .ok (.forSpec .run (some ⟨"/p/A.kt"⟩) "S" line) := by
  have hmode : RunMode.read? "run" = some .run := by decide +kernel
  have hfound : (Discovery.ofConfig .standard).enclosing spacedSpec 42 =
      some ⟨"S", "S", "Fun Spec", none⟩ := by
    decide +kernel
  simp only [Command.requestAt, hmode, Command.loadSource, load_spacedWorld, mapError_ok, bind,
    Except.bind, hstart, hskip, hfound]

/-- By its own line the spec is run. -/
theorem spec_run_by_own_line :
    (Discovery.ofConfig .standard).load spacedWorld ⟨"/p/A.kt"⟩ = .ok spacedSpec ∧
      spacedSpec.WellNested ∧
      ∃ r, Command.requestAt (.ofConfig .standard) spacedWorld ⟨"/p/A.kt"⟩ 3 "run" = .ok r ∧
        ∃ before row after, LineAt spacedSpec.chars 3 before row after ∧
          ∃ decl ∈ declarations spacedSpec, r.specFqn = decl.fqn ∧ decl.place.Meets before row := by
  have hstart : spacedSpec.offsetAt 3 1 = some 42 := by decide +kernel
  have hr := requestAt_spacedWorld hstart (by decide +kernel)
  have hlines : ∀ decl ∈ declarations spacedSpec, (spacedSpec.anchorOf decl.place).line = 3 := by
    decide +kernel
  obtain ⟨before, row, after, offset, decl, s, hline, -, ho, -, hfqn, hmeets, -⟩ :=
    Command.requestAt_meets_line_iff load_spacedWorld spacedSpec_wellNested hr
  have hdecl := (Discovery.mem_owners.mp ho).1
  refine ⟨load_spacedWorld, spacedSpec_wellNested, _, hr, before, row, after, hline, decl, hdecl,
    hfqn, hmeets.mpr fun hbelow => ?_⟩
  have := hbelow.2
  rw [hlines decl hdecl] at this
  exact Nat.lt_irrefl 3 this

lemma spacedSpec_lineAt : LineAt spacedSpec.chars 2
    "import io.kotest.core.spec.style.FunSpec\n".toList ['\n'] "class S : FunSpec()\n".toList where
  split := rfl
  starts := .inr (by decide +kernel)
  number := by decide +kernel
  filled := by simp
  inner := by simp
  ends := .inl rfl

/-- By the empty line before it the spec is run too, although nothing declared has a byte there. -/
theorem spec_run_by_empty_line :
    (Discovery.ofConfig .standard).load spacedWorld ⟨"/p/A.kt"⟩ = .ok spacedSpec ∧
      (∃ r, Command.requestAt (.ofConfig .standard) spacedWorld ⟨"/p/A.kt"⟩ 2 "run" = .ok r ∧
        r.specFqn = "S") ∧
      ∃ before row after, LineAt spacedSpec.chars 2 before row after ∧
        (∀ c ∈ row, isBlank c = true) ∧
        ∀ decl ∈ declarations spacedSpec, ¬decl.place.Meets before row := by
  have hstart : spacedSpec.offsetAt 2 1 = some 41 := by decide +kernel
  have hstarts : ∀ decl ∈ declarations spacedSpec, 42 ≤ decl.place.start := by decide +kernel
  have hend : byteLength
      ("import io.kotest.core.spec.style.FunSpec\n".toList ++ ['\n']) = 42 := by
    decide +kernel
  refine ⟨load_spacedWorld, ⟨_, requestAt_spacedWorld hstart (by decide +kernel), rfl⟩, _, _, _,
    spacedSpec_lineAt, List.forall_mem_singleton.mpr (by decide), ?_⟩
  rintro decl hdecl ⟨offset, -, hlt, hcovers⟩
  have := hstarts decl hdecl
  have := (covers_iff.mp hcovers).1
  omega

end SpecLens
