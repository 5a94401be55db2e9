import Mathlib.Data.List.Find
import SpecLens.Proofs.Kotlin.Backtick
import SpecLens.Proofs.Kotlin.Candidate
import SpecLens.Proofs.Kotlin.Comment
import SpecLens.Proofs.Kotlin.HeaderChange

/-!
# Declarations with backticks around identifiers

Identifiers of a file are put between backticks or taken out of them. Names of declarations and
references to supertypes are read without the backticks, package headers and imports are not: where
one of these gets backticks, it names nothing that a name without backticks could be.
-/

namespace SpecLens

open Kotlin Place

namespace Kotlin

/-- The kinds of the entries that make up a header. -/
def directiveKinds : List String := ["package_header", "import_header", "import"]

def isDirective (p : Place) : Bool := directiveKinds.contains p.kind

/-- The header that some entries of a file make up. -/
def Header.ofPlaces (src : Source) (places : List Place) : Header :=
  places.foldl (Header.add src) .empty

end Kotlin

/-- The entries of a file that make up its header. -/
def Source.directives (src : Source) : List Place :=
  (Header.entriesUnder src.root [] src.root.children 0).filter isDirective

/-- `quoted` is `src` with identifiers between backticks. `f` leads from the places of `src` to
those of `quoted`. What other texts hold does not matter. -/
structure Source.Requotes (src quoted : Source) (f : Place → Place) : Prop where
  root : f src.rootPlace = quoted.rootPlace
  children : ∀ p ∈ src.rootPlace.preorder, (f p).children = p.children.map f
  kind : ∀ p ∈ src.rootPlace.preorder, (f p).kind = p.kind
  named : ∀ p ∈ src.rootPlace.preorder, (f p).named = p.named
  isName : ∀ p ∈ src.rootPlace.preorder, (f p).node.tag.isName = p.node.tag.isName
  name : ∀ p ∈ src.rootPlace.preorder, (isIdentifier p || p.node.tag.isName) = true →
    SameName (src.textOf p) (quoted.textOf (f p))
  directive : ∀ p ∈ src.directives, Backticked (src.textOf p) (quoted.textOf (f p))

/-- The directives of `src` that are not quoted in `quoted`. -/
def Source.unquotedDirectives (src quoted : Source) (f : Place → Place) : List Place :=
  src.directives.filter fun p => quoted.textOf (f p) == src.textOf p

/-- The header of `src` without the directives that are quoted in `quoted`. -/
def Source.unquotedHeader (src quoted : Source) (f : Place → Place) : Header :=
  .ofPlaces src (src.unquotedDirectives quoted f)

/-- Of several entries at most one is a package header. -/
def Kotlin.OnePackage (places : List Place) : Prop :=
  ∀ p ∈ places, ∀ q ∈ places, p.kind = "package_header" → q.kind = "package_header" → p = q

/-- What the grammar promises of the header of a file: it names at most one package, and an import
of everything gives no name. -/
structure Source.PlainHeader (src : Source) : Prop where
  package : OnePackage src.directives
  wildcard : ∀ i ∈ (Header.read src).imports, i.wildcard = true → i.asName = none

namespace Kotlin

variable {src : Source} {h : Header} {p q : Place} {places : List Place}

/-- The package that an entry names. -/
def packageAt (src : Source) (p : Place) : Option String :=
  if p.kind == "package_header" then packageName? (src.textOf p) else none

/-- The import that an entry writes, if any. -/
def importsAt (src : Source) (p : Place) : List Import :=
  if p.kind == "package_header" then []
  else if p.kind == "import_header" || p.kind == "import" then
    (Import.read? (src.textOf p)).toList
  else []

lemma add_eq (src : Source) (h : Header) (p : Place) :
    Header.add src h p = ⟨(packageAt src p).or h.package, h.imports ++ importsAt src p⟩ := by
  rw [Header.add, packageAt, importsAt]
  split
  · simp
  · split <;> simp

lemma imports_foldl_add (src : Source) (h : Header) (places : List Place) :
    (places.foldl (Header.add src) h).imports = h.imports ++ places.flatMap (importsAt src) := by
  induction places generalizing h with
  | nil => simp
  | cons p places ih => simp [ih, add_eq]

lemma imports_ofPlaces (src : Source) (places : List Place) :
    (Header.ofPlaces src places).imports = places.flatMap (importsAt src) :=
  imports_foldl_add src .empty places

lemma package_foldl_add (src : Source) (h : Header) (places : List Place) :
    (places.foldl (Header.add src) h).package =
      (places.reverse.findSome? (packageAt src)).or h.package := by
  induction places generalizing h with
  | nil => rfl
  | cons p places ih =>
    have hlast : [p].findSome? (packageAt src) = packageAt src p := by
      cases h : packageAt src p <;> simp [h]
    rw [List.foldl_cons, ih, add_eq, List.reverse_cons, List.findSome?_append, Option.or_assoc,
      hlast]

lemma packageAt_eq_some_iff {name : String} : packageAt src p = some name ↔
    p.kind = "package_header" ∧ packageName? (src.textOf p) = some name := by
  rw [packageAt, Option.ite_none_right_eq_some, beq_iff_eq]

lemma kind_of_packageAt {name : String} (hp : packageAt src p = some name) :
    p.kind = "package_header" :=
  (packageAt_eq_some_iff.mp hp).1

lemma onePackage_of_length (h : (places.filter (·.kind = "package_header")).length ≤ 1) :
    OnePackage places := by
  intro p hp q hq hkind hkind'
  have hmem {x : Place} (hx : x ∈ places) (hkind : x.kind = "package_header") :
      x ∈ places.filter (·.kind = "package_header") :=
    List.mem_filter.mpr ⟨hx, decide_eq_true hkind⟩
  obtain ⟨i, hi, rfl⟩ := List.getElem_of_mem (hmem hp hkind)
  obtain ⟨j, hj, rfl⟩ := List.getElem_of_mem (hmem hq hkind')
  obtain rfl : i = j := by omega
  rfl

lemma package_ofPlaces_iff {name : String} (hone : OnePackage places) :
    (Header.ofPlaces src places).package = some name ↔
      ∃ p ∈ places, packageAt src p = some name := by
  rw [Header.ofPlaces, package_foldl_add, Header.empty, Option.or_none]
  constructor
  · intro hfound
    obtain ⟨p, hp, hname⟩ := List.exists_of_findSome?_eq_some hfound
    exact ⟨p, List.mem_reverse.mp hp, hname⟩
  · rintro ⟨p, hp, hname⟩
    cases hfound : places.reverse.findSome? (packageAt src) with
    | none =>
      rw [List.findSome?_eq_none_iff] at hfound
      rw [hfound p (List.mem_reverse.mpr hp)] at hname
      cases hname
    | some name' =>
      obtain ⟨q, hq, hname'⟩ := List.exists_of_findSome?_eq_some hfound
      rw [← hname, ← hname', hone p hp q (List.mem_reverse.mp hq) (kind_of_packageAt hname)
        (kind_of_packageAt hname')]

lemma package_ofPlaces_eq (hone : OnePackage places) (hp : p ∈ places)
    (hkind : p.kind = "package_header") :
    (Header.ofPlaces src places).package = packageAt src p := by
  ext name
  rw [package_ofPlaces_iff hone]
  constructor
  · rintro ⟨q, hq, hname⟩
    rwa [hone p hp q hq hkind (kind_of_packageAt hname)]
  · exact fun hname => ⟨p, hp, hname⟩

lemma read?_of_mem_importsAt {i : Import} (hi : i ∈ importsAt src p) :
    Import.read? (src.textOf p) = some i := by
  rw [importsAt] at hi
  split at hi
  · cases hi
  · split at hi
    · exact Option.mem_toList.mp hi
    · cases hi

lemma read_eq_ofPlaces (src : Source) : Header.read src = .ofPlaces src src.directives := by
  have hadd : (fun h p => if isDirective p = true then Header.add src h p else h) =
      Header.add src := by
    funext h p
    split
    · rfl
    · rename_i hkind
      rw [add_eq, packageAt, importsAt]
      simp only [isDirective, directiveKinds, List.contains_iff_mem, List.mem_cons, not_or] at hkind
      simp [hkind]
  rw [Header.ofPlaces, Source.directives, List.foldl_filter, hadd, Header.read]
  rfl

lemma not_mem_firstSegment {reference : String} (h : backtick ∉ reference.toList) :
    backtick ∉ (firstSegment reference).toList := by
  rw [firstSegment]
  split
  · rename_i first rest hcut
    rw [Text.eq_of_cutAt?_eq_some hcut] at h
    rw [String.toList_ofList]
    exact fun hmem => h (by simp [hmem])
  · exact h

/-- An import that leads to a name without backticks has none itself. -/
lemma backticks_of_leads {i : Import} {reference name : String}
    (hwildcard : i.wildcard = true → i.asName = none) (hreference : backtick ∉ reference.toList)
    (hname : backtick ∉ name.toList)
    (h : (i.visibleName = some (firstSegment reference) ∧ i.expand reference = name) ∨
      (i.wildcard = true ∧ i.path ++ "." ++ reference = name)) :
    backticks i.path.toList + i.asName.elim 0 (fun name => backticks name.toList) = 0 := by
  have hpath : backticks i.path.toList = 0 := by
    rw [backticks, List.count_eq_zero]
    refine fun hmem => hname ?_
    rcases h with ⟨-, rfl⟩ | ⟨-, rfl⟩
    · rw [Import.expand]
      split <;> simp [hmem]
    · simp [hmem]
  rw [hpath, Nat.zero_add]
  cases hasName : i.asName with
  | none => rfl
  | some given =>
    have hplain : ¬i.wildcard = true := fun hstar => by simp [hwildcard hstar] at hasName
    obtain ⟨hvisible, -⟩ := h.resolve_right fun hleads => hplain hleads.1
    rw [Import.visibleName, if_neg hplain, hasName, Option.getD_some, Option.some.injEq] at hvisible
    rw [Option.elim_some, backticks, List.count_eq_zero, hvisible]
    exact not_mem_firstSegment hreference

end Kotlin

namespace Source.Requotes

variable {src quoted : Source} {f : Place → Place} {p q c s t : Place} {header : Header}
  {outer : List String}

lemma children_eq (h : src.Requotes quoted f) (hp : src.Has p) :
    (f p).children = p.children.map f := h.children p (mem_preorder.mpr hp)

lemma kind_eq (h : src.Requotes quoted f) (hp : src.Has p) : (f p).kind = p.kind :=
  h.kind p (mem_preorder.mpr hp)

lemma named_eq (h : src.Requotes quoted f) (hp : src.Has p) : (f p).named = p.named :=
  h.named p (mem_preorder.mpr hp)

lemma isComment_eq (h : src.Requotes quoted f) (hp : src.Has p) :
    (f p).node.isComment = p.node.isComment :=
  congrArg (fun kind : String => Text.containsText "comment".toList kind.toList) (h.kind_eq hp)

lemma namedChildren_eq (h : src.Requotes quoted f) (hp : src.Has p) :
    (f p).namedChildren = p.namedChildren.map f := by
  rw [namedChildren, h.children_eq hp, List.filter_map, namedChildren]
  apply congrArg
  apply List.filter_congr
  intro c hc
  have hchild := hp.child hc rfl
  rw [Function.comp_apply, h.named_eq hchild, h.isComment_eq hchild]

lemma walkedNode_eq (h : src.Requotes quoted f) (hp : src.Has p) :
    walkedNode (f p).node = walkedNode p.node := by
  have hnamed : (f p).node.named = p.node.named := h.named_eq hp
  rw [walkedNode, hnamed, h.isComment_eq hp, walkedNode]

/-! ### Headers -/

lemma entriesUnder_eq (h : src.Requotes quoted f) (hp : src.Has p) :
    Header.entriesUnder (f p).node (f p).above (f p).node.children 0 =
      (Header.entriesUnder p.node p.above p.node.children 0).map f := by
  induction p using inductionOn with
  | step p ih =>
    rw [Kotlin.entriesUnder_eq, Kotlin.entriesUnder_eq, h.children_eq hp, List.flatMap_map,
      List.map_flatMap]
    apply List.flatMap_congr
    intro c hc
    have hchild := hp.child hc rfl
    rw [h.named_eq hchild, h.isComment_eq hchild, entriesOf_eq, entriesOf_eq c, h.kind_eq hchild,
      ih c hc hchild]
    split
    · split <;> rfl
    · rfl

lemma directives_eq (h : src.Requotes quoted f) : quoted.directives = src.directives.map f := by
  have hentries := h.entriesUnder_eq .refl
  rw [h.root] at hentries
  rw [directives, show Header.entriesUnder quoted.root [] quoted.root.children 0 = _ from hentries,
    List.filter_map, directives]
  apply congrArg
  apply List.filter_congr
  intro p hp
  rw [Function.comp_apply, isDirective, h.kind_eq (has_of_mem_entriesUnder .refl hp), isDirective]

lemma has_directive (hp : p ∈ src.directives) : src.Has p :=
  has_of_mem_entriesUnder .refl (List.mem_filter.mp hp).1

lemma packageAt_eq (h : src.Requotes quoted f) (hp : p ∈ src.directives)
    (htext : quoted.textOf (f p) = src.textOf p) : packageAt quoted (f p) = packageAt src p := by
  rw [packageAt, h.kind_eq (has_directive hp), htext, packageAt]

lemma importsAt_eq (h : src.Requotes quoted f) (hp : p ∈ src.directives)
    (htext : quoted.textOf (f p) = src.textOf p) : importsAt quoted (f p) = importsAt src p := by
  rw [importsAt, h.kind_eq (has_directive hp), htext, importsAt]

lemma read_eq (h : src.Requotes quoted f) :
    Header.read quoted = .ofPlaces quoted (src.directives.map f) := by
  rw [read_eq_ofPlaces, h.directives_eq]

lemma read_eq_of_unquoted (h : src.Requotes quoted f)
    (hsame : ∀ p ∈ src.directives, quoted.textOf (f p) = src.textOf p) :
    Header.read quoted = Header.read src := by
  rw [h.read_eq, read_eq_ofPlaces, Header.ofPlaces, Header.ofPlaces, List.foldl_map]
  refine List.foldl_ext _ _ _ fun header p hp => ?_
  rw [add_eq, add_eq, h.packageAt_eq hp (hsame p hp), h.importsAt_eq hp (hsame p hp)]

lemma onePackage_map (h : src.Requotes quoted f) (hone : OnePackage src.directives) :
    OnePackage (src.directives.map f) := by
  intro p' hp' q' hq' hkind hkind'
  obtain ⟨p, hp, rfl⟩ := List.mem_map.mp hp'
  obtain ⟨q, hq, rfl⟩ := List.mem_map.mp hq'
  rw [h.kind_eq (has_directive hp)] at hkind
  rw [h.kind_eq (has_directive hq)] at hkind'
  rw [hone p hp q hq hkind hkind']

/-- The package of a file stays the same exactly if its package header does. -/
lemma package_eq_iff (h : src.Requotes quoted f) (hone : OnePackage src.directives) :
    (Header.read quoted).package = (Header.read src).package ↔
      ∀ p ∈ src.directives, p.kind = "package_header" →
        quoted.textOf (f p) = src.textOf p := by
  have hone' := h.onePackage_map hone
  rw [h.read_eq, read_eq_ofPlaces]
  constructor
  · intro hsame p hp hkind
    have hkind' : (f p).kind = "package_header" := (h.kind_eq (has_directive hp)).trans hkind
    rw [package_ofPlaces_eq hone hp hkind,
      package_ofPlaces_eq hone' (List.mem_map_of_mem hp) hkind', packageAt, packageAt, hkind,
      hkind'] at hsame
    refine (h.directive p hp).eq_of_count_eq ?_
    rw [← backticks_packageName?, ← backticks_packageName? (src.textOf p)]
    exact congrArg (Option.elim · 0 _) hsame
  · intro hsame
    ext name
    rw [package_ofPlaces_iff hone', package_ofPlaces_iff hone]
    constructor
    · rintro ⟨p', hp', hname⟩
      obtain ⟨p, hp, rfl⟩ := List.mem_map.mp hp'
      have hkind := kind_of_packageAt hname
      rw [h.kind_eq (has_directive hp)] at hkind
      exact ⟨p, hp, by rwa [← h.packageAt_eq hp (hsame p hp hkind)]⟩
    · rintro ⟨p, hp, hname⟩
      exact ⟨f p, List.mem_map_of_mem hp, by
        rwa [h.packageAt_eq hp (hsame p hp (kind_of_packageAt hname))]⟩

lemma textOf_eq_of_backticks (h : src.Requotes quoted f) (hp : p ∈ src.directives)
    (hnone : backticks (quoted.textOf (f p)) = 0) : quoted.textOf (f p) = src.textOf p := by
  by_contra hne
  exact List.count_eq_zero.mp hnone ((h.directive p hp).mem_of_ne hne)

lemma mem_unquotedDirectives : p ∈ src.unquotedDirectives quoted f ↔
    p ∈ src.directives ∧ quoted.textOf (f p) = src.textOf p := by
  rw [unquotedDirectives, List.mem_filter, beq_iff_eq]

lemma mem_imports_of_unquoted {i : Import} (h : src.Requotes quoted f)
    (hi : i ∈ (src.unquotedHeader quoted f).imports) : i ∈ (Header.read quoted).imports := by
  rw [unquotedHeader, imports_ofPlaces] at hi
  obtain ⟨p, hp, hi⟩ := List.mem_flatMap.mp hi
  obtain ⟨hp, htext⟩ := mem_unquotedDirectives.mp hp
  rw [h.read_eq, imports_ofPlaces, List.mem_flatMap]
  exact ⟨f p, List.mem_map_of_mem hp, by rwa [h.importsAt_eq hp htext]⟩

lemma mem_unquoted_of_imports {i : Import} (h : src.Requotes quoted f)
    (hi : i ∈ (Header.read quoted).imports)
    (hnone : backticks i.path.toList + i.asName.elim 0 (fun name => backticks name.toList) = 0) :
    i ∈ (src.unquotedHeader quoted f).imports := by
  rw [h.read_eq, imports_ofPlaces] at hi
  obtain ⟨p', hp', hi⟩ := List.mem_flatMap.mp hi
  obtain ⟨p, hp, rfl⟩ := List.mem_map.mp hp'
  rw [backticks_read? (read?_of_mem_importsAt hi)] at hnone
  have htext := h.textOf_eq_of_backticks hp hnone
  rw [unquotedHeader, imports_ofPlaces, List.mem_flatMap]
  exact ⟨p, mem_unquotedDirectives.mpr ⟨hp, htext⟩, by rwa [← h.importsAt_eq hp htext]⟩

lemma onePackage_unquoted (hone : OnePackage src.directives) :
    OnePackage (src.unquotedDirectives quoted f) := fun p hp q hq =>
  hone p (mem_unquotedDirectives.mp hp).1 q (mem_unquotedDirectives.mp hq).1

lemma package_of_unquoted {base : String} (h : src.Requotes quoted f)
    (hone : OnePackage src.directives) (hbase : (src.unquotedHeader quoted f).package = some base) :
    (Header.read quoted).package = some base := by
  rw [unquotedHeader, package_ofPlaces_iff (onePackage_unquoted hone)] at hbase
  obtain ⟨p, hp, hbase⟩ := hbase
  obtain ⟨hp, htext⟩ := mem_unquotedDirectives.mp hp
  rw [h.read_eq, package_ofPlaces_iff (h.onePackage_map hone)]
  exact ⟨f p, List.mem_map_of_mem hp, by rwa [h.packageAt_eq hp htext]⟩

lemma unquoted_of_package {base : String} (h : src.Requotes quoted f)
    (hone : OnePackage src.directives) (hbase : (Header.read quoted).package = some base)
    (hnone : backtick ∉ base.toList) : (src.unquotedHeader quoted f).package = some base := by
  rw [h.read_eq, package_ofPlaces_iff (h.onePackage_map hone)] at hbase
  obtain ⟨p', hp', hbase⟩ := hbase
  obtain ⟨p, hp, rfl⟩ := List.mem_map.mp hp'
  have htext : quoted.textOf (f p) = src.textOf p := by
    refine h.textOf_eq_of_backticks hp ?_
    rw [← backticks_packageName?, (packageAt_eq_some_iff.mp hbase).2, Option.elim_some, backticks,
      List.count_eq_zero]
    exact hnone
  rw [unquotedHeader, package_ofPlaces_iff (onePackage_unquoted hone)]
  exact ⟨p, mem_unquotedDirectives.mpr ⟨hp, htext⟩, by rwa [← h.packageAt_eq hp htext]⟩

/-- Among the names without backticks, the quoted directives add nothing to what a reference may
denote. -/
theorem mem_candidates_iff {reference name : String} (h : src.Requotes quoted f)
    (hsrc : src.PlainHeader) (hquoted : quoted.PlainHeader)
    (hreference : backtick ∉ reference.toList) (hname : backtick ∉ name.toList) :
    name ∈ (Header.read quoted).candidates reference ↔
      name ∈ (src.unquotedHeader quoted f).candidates reference := by
  have hleads {i : Import} (hi : i ∈ (Header.read quoted).imports) :=
    backticks_of_leads (hquoted.wildcard i hi) hreference hname
  rw [Header.mem_candidates, Header.mem_candidates]
  refine or_congr ⟨?_, ?_⟩ (or_congr Iff.rfl ⟨?_, ?_⟩)
  · rintro ⟨i, hi, hnamed⟩
    exact ⟨i, h.mem_unquoted_of_imports hi (hleads hi (.inl hnamed)), hnamed⟩
  · rintro ⟨i, hi, hnamed⟩
    exact ⟨i, h.mem_imports_of_unquoted hi, hnamed⟩
  · rintro ⟨base, hbase, hopens⟩
    refine ⟨base, ?_, hopens⟩
    rcases Header.mem_bases.mp hbase with ⟨i, hi, hwildcard, rfl⟩ | hpackage
    · have hnone := hleads hi (.inr ⟨hwildcard, hopens⟩)
      exact Header.mem_bases.mpr (.inl ⟨i, h.mem_unquoted_of_imports hi hnone, hwildcard, rfl⟩)
    · have hnone : backtick ∉ base.toList := fun hmem => hname (by simp [← hopens, hmem])
      exact Header.mem_bases.mpr (.inr (h.unquoted_of_package hsrc.package hpackage hnone))
  · rintro ⟨base, hbase, hopens⟩
    refine ⟨base, ?_, hopens⟩
    rcases Header.mem_bases.mp hbase with ⟨i, hi, hwildcard, rfl⟩ | hpackage
    · exact Header.mem_bases.mpr (.inl ⟨i, h.mem_imports_of_unquoted hi, hwildcard, rfl⟩)
    · exact Header.mem_bases.mpr (.inr (h.package_of_unquoted hsrc.package hpackage))

/-! ### Names -/

lemma isIdentifier_eq (h : src.Requotes quoted f) (hp : src.Has p) :
    isIdentifier (f p) = isIdentifier p :=
  congrArg identifierKinds.contains (h.kind_eq hp)

lemma isDeclaration_eq (h : src.Requotes quoted f) (hp : src.Has p) :
    isDeclaration (f p).node = isDeclaration p.node :=
  congrArg declarationKinds.contains (h.kind_eq hp)

lemma declarationName?_eq (h : src.Requotes quoted f) (hp : src.Has p) :
    declarationName? (f p) = (declarationName? p).map f := by
  have hname : (f p).nameChild = p.nameChild.map f := by
    rw [nameChild, h.children_eq hp, List.find?_map, nameChild]
    exact congrArg _ (List.find?_congr fun c hc => h.isName c (mem_preorder.mpr (hp.child hc rfl)))
  have hidentifier : (f p).namedChildren.find? isIdentifier =
      (p.namedChildren.find? isIdentifier).map f := by
    rw [h.namedChildren_eq hp, List.find?_map]
    exact congrArg _ (List.find?_congr fun c hc =>
      h.isIdentifier_eq (hp.child (mem_children_of_mem_namedChildren hc) rfl))
  rw [declarationName?, hname, hidentifier, declarationName?, Option.map_or]

lemma sameName_of_declarationName? (h : src.Requotes quoted f) (hp : src.Has p)
    (hc : declarationName? p = some c) : SameName (src.textOf c) (quoted.textOf (f c)) := by
  rcases Option.or_eq_some_iff.mp hc with hname | ⟨-, hidentifier⟩
  · have hhas := hp.child (List.mem_of_find?_eq_some hname) rfl
    exact h.name c (mem_preorder.mpr hhas) (by simp [List.find?_some hname])
  · have hmem := mem_children_of_mem_namedChildren (List.mem_of_find?_eq_some hidentifier)
    exact h.name c (mem_preorder.mpr (hp.child hmem rfl)) (by simp [List.find?_some hidentifier])

lemma delegationSpecifiers_eq (h : src.Requotes quoted f) (hp : src.Has p) :
    delegationSpecifiers (f p) = (delegationSpecifiers p).map f := by
  rw [Kotlin.delegationSpecifiers_eq, Kotlin.delegationSpecifiers_eq, h.children_eq hp,
    List.flatMap_map, List.map_flatMap]
  apply List.flatMap_congr
  intro c hc
  have hchild := hp.child hc rfl
  rw [h.walkedNode_eq hchild, specifiersAt, h.kind_eq hchild, specifiersAt]
  split
  · split
    · rfl
    · split
      · rw [h.namedChildren_eq hchild, List.filter_map]
        apply congrArg
        apply List.filter_congr
        intro d hd
        have hhas := hchild.child (mem_children_of_mem_namedChildren hd) rfl
        rw [Function.comp_apply, h.kind_eq hhas]
      · rfl
  · rfl

lemma typedNode_eq (h : src.Requotes quoted f) (hp : src.Has p) :
    typedNode (f p).node = typedNode p.node := by
  have hnamed : (f p).node.named = p.node.named := h.named_eq hp
  have hkind : (f p).node.kind = p.node.kind := h.kind_eq hp
  rw [typedNode, hnamed, h.isComment_eq hp, hkind, typedNode]

lemma userTypeOf_eq (h : src.Requotes quoted f) (hp : src.Has p) :
    userTypeOf (f p).node (f p).above = (userTypeOf p.node p.above).map f := by
  induction p using inductionOn with
  | step p ih =>
    rw [Kotlin.userTypeOf_eq, Kotlin.userTypeOf_eq p, h.kind_eq hp, userTypeUnder_eq,
      userTypeUnder_eq, h.children_eq hp, ← List.head?_filterMap, ← List.head?_filterMap,
      List.filterMap_map]
    split
    · rfl
    · rw [← List.head?_map, List.map_filterMap]
      apply congrArg
      apply List.filterMap_congr
      intro c hc
      have hchild := hp.child hc rfl
      rw [Function.comp_apply, h.typedNode_eq hchild, ih c hc hchild]
      split <;> rfl

lemma segmentsOf_eq (h : src.Requotes quoted f) (hp : src.Has p) :
    segmentsOf quoted (f p).node = segmentsOf src p.node := by
  induction p using inductionOn with
  | step p ih =>
    rw [Kotlin.segmentsOf_eq, Kotlin.segmentsOf_eq, h.children_eq hp, List.flatMap_map]
    apply List.flatMap_congr
    intro c hc
    have hchild := hp.child hc rfl
    rw [segmentsAt, segmentsAt, h.kind_eq hchild, h.isIdentifier_eq hchild, h.named_eq hchild,
      ih c hc hchild]
    split
    · rfl
    · split
      · rename_i hidentifier
        rw [(h.name c (mem_preorder.mpr hchild) (by simp [hidentifier])).unquoted_eq]
      · rfl

lemma supertypeTexts_eq (h : src.Requotes quoted f) (hp : src.Has p) :
    supertypeTexts quoted (f p) = supertypeTexts src p := by
  simp only [supertypeTexts, h.delegationSpecifiers_eq hp, List.filterMap_map,
    List.filterMap_filterMap]
  apply List.filterMap_congr
  intro s hs
  have hspecifier := has_of_mem_delegationSpecifiers hp hs
  rw [Function.comp_apply, h.userTypeOf_eq hspecifier]
  cases ht : userTypeOf s.node s.above with
  | none => rfl
  | some t =>
    simp only [Option.map_some, Option.bind_some]
    rw [h.segmentsOf_eq (hspecifier.trans (below_of_userTypeOf ht))]

lemma declarationAt_eq (h : src.Requotes quoted f) (hp : src.Has p) (header : Header)
    (outer : List String) :
    declarationAt quoted header outer (f p) = (declarationAt src header outer p).map f := by
  have hname : (((declarationName? p).map f).map fun n => unquoted (quoted.textOf n)) =
      (declarationName? p).map fun n => unquoted (src.textOf n) := by
    rw [Option.map_map]
    apply Option.map_congr
    intro n hn
    exact (h.sameName_of_declarationName? hp hn).unquoted_eq
  simp only [declarationAt, Declaration.map, h.declarationName?_eq hp, hname,
    h.supertypeTexts_eq hp]

lemma declarationsUnder_eq (h : src.Requotes quoted f) (hp : src.Has p) (header : Header)
    (outer : List String) (hchildren : ∀ c ∈ p.children,
      declarationsOf quoted header outer (f c).node (f c).above =
        (declarationsOf src header outer c.node c.above).map (Declaration.map f)) :
    declarationsUnder quoted header outer (f p).node (f p).above (f p).node.children 0 =
      (declarationsUnder src header outer p.node p.above p.node.children 0).map
        (Declaration.map f) := by
  rw [Kotlin.declarationsUnder_eq, Kotlin.declarationsUnder_eq, h.children_eq hp,
    List.flatMap_map, List.map_flatMap]
  apply List.flatMap_congr
  intro c hc
  rw [h.walkedNode_eq (hp.child hc rfl), hchildren c hc]
  split <;> rfl

lemma declarationsOf_eq (h : src.Requotes quoted f) (hp : src.Has p) (header : Header)
    (outer : List String) :
    declarationsOf quoted header outer (f p).node (f p).above =
      (declarationsOf src header outer p.node p.above).map (Declaration.map f) := by
  induction p using inductionOn generalizing outer with
  | step p ih =>
    have hunder (names : List String) := h.declarationsUnder_eq hp header names
      fun c hc => ih c hc (hp.child hc rfl) names
    rw [Kotlin.declarationsOf_eq, Kotlin.declarationsOf_eq src, h.isDeclaration_eq hp,
      h.declarationAt_eq hp, hunder, hunder]
    split <;> rfl

/-- Read with the same header, the declarations of the quoted file are those of the other one. -/
theorem declarationsWith_eq (h : src.Requotes quoted f) (header : Header) :
    declarationsWith quoted header = (declarationsWith src header).map (Declaration.map f) := by
  have hunder := h.declarationsUnder_eq .refl header [] fun c hc =>
    h.declarationsOf_eq (Reach.refl.child hc rfl) header []
  rw [h.root] at hunder
  exact hunder

lemma declarations_eq_map (h : src.Requotes quoted f) : declarations quoted =
    (declarationsWith src .empty).map fun decl => (decl.map f).under (.read quoted) := by
  rw [Kotlin.declarations_eq_map, h.declarationsWith_eq, List.map_map]
  rfl

lemma map_fqn_eq_iff (h : src.Requotes quoted f) :
    (declarations quoted).map (·.fqn) = (declarations src).map (·.fqn) ↔
      declarations src = [] ∨ (Header.read quoted).package = (Header.read src).package := by
  rw [h.declarations_eq_map, Kotlin.declarations_eq_map, List.map_map, List.map_map,
    List.map_eq_nil_iff, List.map_inj_left]
  constructor
  · intro hsame
    rw [List.eq_nil_iff_forall_not_mem]
    by_contra! hnone
    obtain ⟨⟨decl, hdecl⟩, hpackage⟩ := hnone
    exact hpackage (qualify_eq_iff.mp (hsame decl hdecl))
  · rintro (hnil | hpackage) decl hdecl
    · simp [hnil] at hdecl
    · exact qualify_eq_iff.mpr hpackage

/-! ### References without backticks -/

lemma not_mem_intercalate {c : Char} {sep : List Char} {parts : List (List Char)} (hsep : c ∉ sep)
    (hparts : ∀ part ∈ parts, c ∉ part) : c ∉ sep.intercalate parts := by
  induction parts with
  | nil => simp
  | cons part parts ih =>
    obtain ⟨hpart, hparts⟩ := List.forall_mem_cons.mp hparts
    cases parts with
    | nil => simpa using hpart
    | cons next rest =>
      rw [List.intercalate_cons_cons, List.mem_append, List.mem_append]
      exact not_or.mpr ⟨not_or.mpr ⟨hpart, hsep⟩, ih hparts⟩

lemma not_mem_segmentsOf (h : src.Requotes quoted f) (hp : src.Has p) :
    ∀ segment ∈ segmentsOf src p.node, backtick ∉ segment.toList := by
  induction p using inductionOn with
  | step p ih =>
    intro segment hsegment
    rw [Kotlin.segmentsOf_eq] at hsegment
    obtain ⟨c, hc, hsegment⟩ := List.mem_flatMap.mp hsegment
    have hchild := hp.child hc rfl
    rw [segmentsAt] at hsegment
    split at hsegment
    · cases hsegment
    · split at hsegment
      · rename_i hidentifier
        rw [List.mem_singleton.mp hsegment]
        exact (h.name c (mem_preorder.mpr hchild) (by simp [hidentifier])).not_mem
      · split at hsegment
        · exact ih c hc hchild segment hsegment
        · cases hsegment

/-- No supertype is referred to with backticks. -/
lemma not_mem_text {d : Declaration} (h : src.Requotes quoted f)
    (hd : d ∈ declarationsWith src header) : ∀ s ∈ d.supertypes, backtick ∉ s.text.toList := by
  obtain ⟨outer, p, hp, rfl⟩ := mem_declarationsWith hd
  intro s hs
  obtain ⟨text, htext, rfl⟩ := List.mem_map.mp hs
  obtain ⟨t, ht, htext⟩ := List.mem_filterMap.mp htext
  obtain ⟨specifier, hspecifier, ht⟩ := List.mem_filterMap.mp ht
  have hhas := (has_of_mem_delegationSpecifiers hp hspecifier).trans (below_of_userTypeOf ht)
  obtain ⟨-, htext⟩ := Option.ite_none_left_eq_some.mp htext
  rw [← Option.some.inj htext, String.toList_intercalate]
  refine not_mem_intercalate (by decide) fun segment hsegment => ?_
  obtain ⟨name, hname, rfl⟩ := List.mem_map.mp hsegment
  exact h.not_mem_segmentsOf hhas name hname

end Source.Requotes

end SpecLens
