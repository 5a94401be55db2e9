import SpecLens.Proofs.Kotlin.Requoted
import SpecLens.Proofs.Spec.Comment
import SpecLens.Proofs.Spec.Growth

/-!
# Specs with backticks around identifiers

Backticks around the name of a class or around a reference to a supertype change neither which specs
are found nor how they are called. Those around an identifier of a directive do: a quoted package
header is another package, and a quoted import leads to no base class of a style.
-/

namespace SpecLens

open Kotlin Place

namespace Discovery

variable {src quoted : Source} {f : Place → Place} {h h' : Header} {d : Discovery}

/-- The names and the styles of the specs that are found with a header. -/
def found (d : Discovery) (src : Source) (h : Header) : List (String × String) :=
  let all := declarationsWith src h
  all.filterMap fun decl => (d.styleFor? all decl).map fun s => (decl.name, s.name)

lemma map_specs (d : Discovery) (src : Source) :
    (d.specs src).map (fun spec => (spec.name, spec.style)) = d.found src (.read src) := by
  simp only [specs, List.map_filterMap, Option.map_map]
  rfl

lemma found_requoted (hq : src.Requotes quoted f) (d : Discovery) (h : Header) :
    d.found quoted h = d.found src h := by
  simp only [found, hq.declarationsWith_eq, List.filterMap_map]
  apply List.filterMap_congr
  intro decl _
  simp only [Function.comp_apply, styleFor?_map]
  rfl

/-- Two headers lead to the same specs if each name of a base class is found with both or with
none. -/
lemma found_congr (hcandidates : ∀ decl ∈ declarationsWith src .empty, ∀ s ∈ decl.supertypes,
      ∀ style ∈ d.registry.styles,
        (style.fqn ∈ h.candidates s.text ↔ style.fqn ∈ h'.candidates s.text)) :
    d.found src h = d.found src h' := by
  simp only [found, declarationsWith_eq_map src h, declarationsWith_eq_map src h',
    List.filterMap_map]
  apply List.filterMap_congr
  intro decl hdecl
  have hstyle : d.styleFor? ((declarationsWith src .empty).map (.under h)) (decl.under h) =
      d.styleFor? ((declarationsWith src .empty).map (.under h')) (decl.under h') := by
    refine d.registry.forSupertypes?_congr_fqn fun style hstyle => ?_
    rw [mem_resolvedSupertypes_under, mem_resolvedSupertypes_under]
    refine exists_congr fun e => and_congr_right fun he => ?_
    refine exists_congr fun s => and_congr_right fun hs => ?_
    exact hcandidates e (mem_of_mem_lineage hdecl he) s hs style hstyle
  rw [Function.comp_apply, hstyle]
  rfl

lemma found_unquoted (hq : src.Requotes quoted f) (hsrc : src.PlainHeader)
    (hquoted : quoted.PlainHeader) (hstyles : ∀ s ∈ d.registry.styles, backtick ∉ s.fqn.toList) :
    d.found src (.read quoted) = d.found src (src.unquotedHeader quoted f) :=
  found_congr fun _ hdecl s hs style hstyle =>
    hq.mem_candidates_iff hsrc hquoted (hq.not_mem_text hdecl s hs) (hstyles style hstyle)

/-- What backticks around identifiers change. Names of declarations and references to supertypes
stay the same. Fully qualified names do exactly if the package header is not quoted. Of the names
without backticks, a reference may denote those that it does when only the directives that are not
quoted are read, and so the specs found and their styles are those found with these directives.
Where no directive is quoted, all of this stays the same. -/
theorem requoted_reads_unquoted_directives (d : Discovery) (hq : src.Requotes quoted f)
    (hsrc : src.PlainHeader) (hquoted : quoted.PlainHeader)
    (hstyles : ∀ s ∈ d.registry.styles, backtick ∉ s.fqn.toList) :
    let unquoted := src.unquotedHeader quoted f
    (declarations quoted).map (fun e => (e.name, e.supertypes.map (·.text))) =
        (declarations src).map (fun e => (e.name, e.supertypes.map (·.text))) ∧
      ((declarations quoted).map (·.fqn) = (declarations src).map (·.fqn) ↔
        declarations src = [] ∨ ∀ p ∈ src.directives, p.kind = "package_header" →
          quoted.textOf (f p) = src.textOf p) ∧
      (∀ reference name, backtick ∉ reference.toList → backtick ∉ name.toList →
        (name ∈ (Header.read quoted).candidates reference ↔
          name ∈ unquoted.candidates reference)) ∧
      (d.specs quoted).map (fun spec => (spec.name, spec.style)) = d.found src unquoted ∧
      ((∀ p ∈ src.directives, quoted.textOf (f p) = src.textOf p) →
        declarations quoted = (declarations src).map (Declaration.map f) ∧
          (d.specs quoted).map (fun spec => (spec.name, spec.fqn, spec.style)) =
            (d.specs src).map fun spec => (spec.name, spec.fqn, spec.style)) := by
  intro unquoted
  refine ⟨?_, ?_, fun _ _ => hq.mem_candidates_iff hsrc hquoted, ?_, fun hsame => ?_⟩
  · rw [hq.declarations_eq_map, declarations_eq_map, List.map_map, List.map_map]
    simp [Function.comp_def, Declaration.under, Declaration.map]
  · rw [hq.map_fqn_eq_iff, hq.package_eq_iff hsrc.package]
  · rw [map_specs, found_requoted hq, found_unquoted hq hsrc hquoted hstyles]
  · have hall : declarations quoted = (declarations src).map (Declaration.map f) := by
      have hwith := hq.declarationsWith_eq (.read src)
      rw [← declarationsWith_read, hq.read_eq_of_unquoted hsame, hwith, declarationsWith_read]
    refine ⟨hall, ?_⟩
    simp only [specs, hall, List.filterMap_map, List.map_filterMap]
    apply List.filterMap_congr
    intro decl _
    simp only [Function.comp_apply, styleFor?_map, Option.map_map]
    rfl

end Discovery

/-- A name, between backticks where the argument says so. -/
def marked (mark : Bool) (name : List Char) : List Char :=
  if mark then backtick :: name ++ [backtick] else name

/-- A file with a spec in a package. The arguments tell where backticks are: around the package,
around the base class that is imported, and around the names in the declaration. -/
def markedSpec (package base names : Bool) : Source where
  chars := "package ".toList ++ marked package ['a'] ++ "\nimport io.kotest.core.spec.style.".toList
    ++ marked base "FunSpec".toList ++ "\nclass ".toList ++ marked names ['S'] ++ " : ".toList
    ++ marked names "FunSpec".toList ++ "()\n".toList
  root := .rule "source_file" 0 (class_ + 22 + 2 * width names) [
    .rule "package_header" 0 (9 + width package) [
      .fixed "package" 0,
      .rule "qualified_identifier" 8 (9 + width package) [.identifier 8 (9 + width package)]],
    .rule "import" import_ (import_ + 40 + width base) [
      .fixed "import" import_,
      .rule "qualified_identifier" (import_ + 7) (import_ + 40 + width base) [
        .identifier (import_ + 7) (import_ + 9), .fixed "." (import_ + 9),
        .identifier (import_ + 10) (import_ + 16), .fixed "." (import_ + 16),
        .identifier (import_ + 17) (import_ + 21), .fixed "." (import_ + 21),
        .identifier (import_ + 22) (import_ + 26), .fixed "." (import_ + 26),
        .identifier (import_ + 27) (import_ + 32), .fixed "." (import_ + 32),
        .identifier (import_ + 33) (import_ + 40 + width base)]],
    .subclass class_ (class_ + 7 + width names) (class_ + 17 + 2 * width names)
      (class_ + 19 + 2 * width names) []]
where
  width (mark : Bool) : Nat := if mark then 2 else 0
  import_ : Nat := 10 + width package
  class_ : Nat := import_ + 41 + width base

/-- The place with the same way from the root. -/
def samePlace (quoted : Source) (p : Place) : Place := placeAt quoted p.path

lemma backticked_marked (before : List Char) (mark : Bool) (name : List Char) :
    Backticked (before ++ name) (before ++ marked mark name) := by
  refine .append_left before ?_
  cases mark with
  | false =>
    have h := Backticked.nil.append_left name
    rwa [List.append_nil] at h
  | true =>
    have h := Backticked.part name .nil
    rwa [List.append_nil] at h

/-- Whether a file is another one with backticks can be told from paths. -/
lemma Source.requotes_of_paths {src quoted : Source}
    (hroot : (samePlace quoted src.rootPlace).path = [])
    (hchildren : ∀ p ∈ src.rootPlace.preorder,
      (samePlace quoted p).children.map path = (p.children.map (samePlace quoted)).map path)
    (htag : ∀ p ∈ src.rootPlace.preorder, (samePlace quoted p).kind = p.kind ∧
      (samePlace quoted p).named = p.named ∧
      (samePlace quoted p).node.tag.isName = p.node.tag.isName)
    (hname : ∀ p ∈ src.rootPlace.preorder, (isIdentifier p || p.node.tag.isName) = true →
      SameName (src.textOf p) (quoted.textOf (samePlace quoted p)))
    (hdirective : ∀ p ∈ src.directives,
      Backticked (src.textOf p) (quoted.textOf (samePlace quoted p))) :
    src.Requotes quoted (samePlace quoted) where
  root := eq_of_path_eq (has_placeAt _ _) .refl hroot
  children p hp := by
    refine eq_of_map_path_eq (fun c hc => (has_placeAt _ _).child hc rfl) (fun c hc => ?_)
      (hchildren p hp)
    obtain ⟨d, -, rfl⟩ := List.mem_map.mp hc
    exact has_placeAt _ _
  kind p hp := (htag p hp).1
  named p hp := (htag p hp).2.1
  isName p hp := (htag p hp).2.2
  name := hname
  directive := hdirective

lemma markedSpec_directives (package base names : Bool) :
    (markedSpec false false false).directives.map (fun p =>
      ((markedSpec false false false).textOf p,
        (markedSpec package base names).textOf (samePlace (markedSpec package base names) p))) =
      [("package ".toList ++ ['a'], "package ".toList ++ marked package ['a']),
        ("import io.kotest.core.spec.style.".toList ++ "FunSpec".toList,
          "import io.kotest.core.spec.style.".toList ++ marked base "FunSpec".toList)] := by
  revert package base names
  decide

set_option maxRecDepth 4000 in
lemma markedSpec_requotes (package base names : Bool) :
    (markedSpec false false false).Requotes (markedSpec package base names)
      (samePlace (markedSpec package base names)) := by
  refine Source.requotes_of_paths ?_ ?_ ?_ ?_ fun p hp => ?_
  case refine_5 =>
    have htexts := List.mem_map_of_mem
      (f := fun p => ((markedSpec false false false).textOf p,
        (markedSpec package base names).textOf (samePlace (markedSpec package base names) p))) hp
    rw [markedSpec_directives] at htexts
    simp only [List.mem_cons, List.not_mem_nil, or_false, Prod.mk.injEq] at htexts
    rcases htexts with ⟨htext, htext'⟩ | ⟨htext, htext'⟩ <;> rw [htext, htext']
    · exact backticked_marked _ package ['a']
    · exact backticked_marked _ base _
  all_goals
    revert package base names
    decide

lemma markedSpec_plainHeader (package base names : Bool) :
    (markedSpec package base names).PlainHeader where
  package := by
    refine onePackage_of_length ?_
    revert package base names
    decide
  wildcard := by
    revert package base names
    decide

lemma full_fqn : ∀ s ∈ (Discovery.ofRegistry .full).registry.styles, backtick ∉ s.fqn.toList := by
  decide

/-- The spec is found as before with backticks around the names in its declaration, and in another
package with those around the package as well. -/
theorem markedSpec_reads_unquoted_directives :
    let src := markedSpec false false false
    let renamed := markedSpec false false true
    let moved := markedSpec true false true
    let d := Discovery.ofRegistry .full
    src.Requotes renamed (samePlace renamed) ∧ src.Requotes moved (samePlace moved) ∧
      src.PlainHeader ∧ renamed.PlainHeader ∧ moved.PlainHeader ∧
      (∀ s ∈ d.registry.styles, backtick ∉ s.fqn.toList) ∧
      (d.specs renamed).map (fun spec => (spec.name, spec.fqn, spec.style)) =
        (d.specs src).map (fun spec => (spec.name, spec.fqn, spec.style)) ∧
      (d.specs src).map (fun spec => (spec.name, spec.fqn, spec.style)) =
        [("S", "a.S", "Fun Spec")] ∧
      (declarations moved).map (·.fqn) ≠ (declarations src).map (·.fqn) ∧
      (d.specs moved).map (fun spec => (spec.name, spec.style)) = [("S", "Fun Spec")] := by
  intro src renamed moved d
  have hrenamed := markedSpec_requotes false false true
  have hmoved := markedSpec_requotes true false true
  have hplain := markedSpec_plainHeader
  obtain ⟨-, -, -, -, hsame⟩ := d.requoted_reads_unquoted_directives hrenamed (hplain _ _ _)
    (hplain _ _ _) full_fqn
  obtain ⟨-, hfqn, -, hfound, -⟩ := d.requoted_reads_unquoted_directives hmoved (hplain _ _ _)
    (hplain _ _ _) full_fqn
  refine ⟨hrenamed, hmoved, hplain _ _ _, hplain _ _ _, hplain _ _ _, full_fqn, (hsame ?_).2, ?_,
    ?_, ?_⟩
  · decide
  · decide
  · rw [Ne, hfqn]
    decide
  · rw [hfound]
    decide

/-- With backticks around the package it is another one, and with backticks around the base class
that is imported no spec is found. -/
theorem quoted_directives_lost :
    let src := markedSpec false false false
    let quoted := markedSpec true true false
    let d := Discovery.ofRegistry .full
    src.Requotes quoted (samePlace quoted) ∧
      (declarations src).map (·.fqn) = ["a.S"] ∧
      (declarations quoted).map (·.fqn) = ["\x60a\x60.S"] ∧
      (d.specs src).map (fun spec => (spec.name, spec.fqn, spec.style)) =
        [("S", "a.S", "Fun Spec")] ∧
      (d.specs quoted).map (fun spec => (spec.name, spec.fqn, spec.style)) = [] :=
  ⟨markedSpec_requotes true true false, by decide, by decide, by decide, by decide⟩

end SpecLens
