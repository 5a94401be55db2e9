import SpecLens.Proofs.Kotlin.CallForm
import SpecLens.Proofs.Kotlin.Literal
import SpecLens.Proofs.Style.Container
import SpecLens.Proofs.Text.Line

/-!
# Stubs are recognized

The stub of a name holds one string literal, which reads as the name. Whichever way a grammar
attaches the argument and the lambda of its call, the style that wrote the stub recognizes one test
in it, and that test has the name.
-/

namespace SpecLens

open Kotlin Place Text

namespace Style

/-- The text of a stub before its literal. -/
def stubLead (s : Style) : List Char :=
  match s.stubKeyword with
  | some keyword => keyword.toList ++ ['(']
  | none => []

/-- The text of a stub behind its literal. -/
def stubTail (s : Style) : List Char :=
  (if s.stubKeyword.isSome then [')'] else []) ++ " \x7b \x7d".toList

lemma stub_toList (s : Style) (name : String) :
    (s.stub name).toList = s.stubLead ++ quote name.toList ++ s.stubTail := by
  unfold stub stubLead stubTail
  cases s.stubKeyword <;> simp

/-- The call in the stub of a name. -/
def stubCall (s : Style) (name : String) (f : CallForm) (parts : List LiteralPart) : Node :=
  let stop := byteLength (s.stubLead ++ quote name.toList)
  let literal := .plainLiteral (byteLength s.stubLead) stop parts
  match s.stubKeyword with
  | some keyword => f.keywordCall (byteLength keyword.toList) (stop + 1) literal
  | none => f.bareCall stop literal

/-- A stub with its tree. -/
def stubSource (s : Style) (name : String) (f : CallForm) (parts : List LiteralPart) : Source where
  chars := (s.stub name).toList
  root := .rule "source_file" 0 (byteLength (s.stub name).toList) [s.stubCall name f parts]

/-- The keyword of a stub declares enabled tests. -/
lemma builtin_stubKeyword : ∀ s ∈ Style.builtin, ∀ keyword ∈ s.stubKeyword,
    s.bareStrings = false ∧ unquoted keyword.toList = keyword ∧ '"' ∉ keyword.toList ∧
      ∃ k ∈ s.leafCalls, Keyword.find? s.leafCalls keyword = some k ∧ k.name = keyword ∧
        k.disabled = false := by
  decide

lemma builtin_bareStrings : ∀ s ∈ Style.builtin, s.stubKeyword = none → s.bareStrings = true := by
  decide

variable {s : Style} {src : Source} {p : Place} {name : String} {f : CallForm}
  {parts : List LiteralPart} {start stop : Nat}

lemma hasEntryAmong_parts (rest : List Node) :
    hasEntryAmong (parts.map .part ++ rest) = hasEntryAmong rest := by
  have hkinds : ∀ kind ∈ ["string_content", "escape_sequence"],
      containsText "interpolat".toList kind.toList = false := by
    decide
  induction parts with
  | nil => rfl
  | cons part parts ih =>
    have hpart : containsText "interpolat".toList (Node.part part).kind.toList = false ∧
        hasEntryBelow (Node.part part) = false := by
      cases part with
      | content => exact ⟨hkinds "string_content" (by decide), rfl⟩
      | escape => exact ⟨hkinds "escape_sequence" (by decide), rfl⟩
    rw [List.map_cons, List.cons_append, hasEntryAmong, ih, hpart.1, hpart.2, Bool.and_false]
    rfl

/-- A literal without template entries reads as the text it quotes. -/
lemma literal?_plainLiteral (hp : p.node = .plainLiteral start stop parts)
    (htext : src.textOf p = quote name.toList) : literal? src p = some ⟨name, false⟩ := by
  have hkind : isStringLiteral p = true := by
    have hsuffix : "string_literal".toList.isSuffixOf "string_literal".toList = true := by
      decide
    rw [isStringLiteral, kind_of_rule hp, Place.named, hp, hsuffix]
    rfl
  have hquote : containsText "interpolat".toList "\"".toList = false := by decide
  have hentry : hasEntryBelow p.node = false := by
    rw [hp, Node.plainLiteral, Node.rule, hasEntryBelow, hasEntryAmong, hasEntryAmong_parts,
      hasEntryAmong, hasEntryAmong]
    simp only [Node.fixed, Node.kind, Node.tag, Node.named, hquote, Bool.false_and, Bool.or_false]
  rw [literal?, if_pos hkind, htext, hentry, read_quote, String.ofList_toList]

lemma textOf_literal (hp : p.node = .plainLiteral (byteLength s.stubLead)
      (byteLength (s.stubLead ++ quote name.toList)) parts)
    (hsrc : src.chars = (s.stub name).toList) : src.textOf p = quote name.toList := by
  have hstart : p.start = byteLength s.stubLead := congrArg Node.start hp
  have hstop : p.stop = byteLength (s.stubLead ++ quote name.toList) := congrArg Node.stop hp
  rw [Source.textOf, hsrc, stub_toList, hstart, hstop, slice?_append, Option.getD_some]

lemma identifierName?_keyword {keyword : String} (hkeyword : s.stubKeyword = some keyword)
    (hp : p.node = .identifier 0 (byteLength keyword.toList))
    (hsrc : src.chars = (s.stub name).toList) :
    identifierName? src p = some (unquoted keyword.toList) := by
  have hkind : isIdentifier p = true := by
    rw [isIdentifier, kind_of_rule hp]
    decide
  have htext : src.textOf p = keyword.toList := by
    have hstart : p.start = byteLength [] := congrArg Node.start hp
    have hstop : p.stop = byteLength ([] ++ keyword.toList) := congrArg Node.stop hp
    rw [Source.textOf, hsrc, stub_toList, stubLead, hkeyword, hstart, hstop]
    simp only [List.append_assoc]
    rw [← List.nil_append (keyword.toList ++ _), ← List.append_assoc, slice?_append,
      Option.getD_some]
  rw [identifierName?, if_pos hkind, htext]

/-- The style of a stub reads the call in it as an enabled test with the name. -/
lemma leaf?_stubCall (hs : s ∈ Style.builtin) (hp : p.node = s.stubCall name f parts)
    (hsrc : src.chars = (s.stub name).toList) :
    ∃ lead, s.leaf? src p = some ⟨⟨lead, name, false⟩, .leaf, false⟩ := by
  unfold stubCall at hp
  dsimp only at hp
  split at hp
  · rename_i keyword hkeyword
    obtain ⟨hbare, hname, -, k, -, hfind, rfl, henabled⟩ :=
      builtin_stubKeyword s hs keyword hkeyword
    obtain ⟨c, hc, hcallee, harguments, hlambda⟩ :=
      CallForm.call?_keywordCall hp (Node.isPart_rule (by decide) _ _ _).1
    obtain ⟨v, hv, hnode⟩ := List.map_eq_singleton_iff.mp harguments
    have hcalled := identifierName?_keyword hkeyword hcallee hsrc
    have hliteral := literal?_plainLiteral hnode (textOf_literal hnode hsrc)
    have hidentifier : isIdentifier c.callee = true := by
      rw [isIdentifier, kind_of_rule hcallee]
      decide
    have hshape : shape p = .call c := by
      rw [shape, if_pos (isCall_of_call? hc), hc]
      simp only [hidentifier, if_pos]
    have hread : literalOfCall? src [k.name] p = some ⟨name, false⟩ := by
      simp [literalOfCall?, hc, hcalled, hname, hlambda, Call.onlyLiteral?, hv, hliteral]
    refine ⟨k.lead, ?_⟩
    simp [leaf?, hbare, declaredByCall?, hshape, hcalled, hname, hfind, hread, Keyword.declare,
      henabled]
  · rename_i hkeyword
    have hbare := builtin_bareStrings s hs hkeyword
    obtain ⟨c, hc, hcallee, harguments, hlambda⟩ :=
      CallForm.call?_bareCall hp (Node.isPart_rule (by decide) _ _ _)
        (show "string_literal" ≠ "call_expression" by decide)
    have hliteral := literal?_plainLiteral hcallee (textOf_literal hcallee hsrc)
    have hread : literalOfInvoke? src p = some ⟨name, false⟩ := by
      simp [literalOfInvoke?, hc, hlambda, harguments, hliteral]
    exact ⟨none, by simp [leaf?, hbare, declaredByString?, hread]⟩

/-- Next to the call of a stub, no call in it has a block. -/
lemma calls_stubCall (hp : p.node = s.stubCall name f parts) :
    ∃ others, p.preorder.filter isCall = p :: others ∧ ∀ q ∈ others, ¬HasBlock q := by
  unfold stubCall at hp
  dsimp only at hp
  split at hp
  · exact CallForm.calls_keywordCall hp (Node.callFree_plainLiteral parts)
  · exact ⟨[], CallForm.calls_bareCall hp (Node.callFree_plainLiteral parts), by simp⟩

lemma test?_eq_none_of_not_hasBlock (h : ¬HasBlock p) : s.test? src p = none :=
  Option.eq_none_iff_forall_ne_some.mpr fun _ ht => h (hasBlock_of_test? ht)

lemma test?_eq_none_of_not_isCall (h : isCall p = false) : s.test? src p = none := by
  apply test?_eq_none_of_not_hasBlock
  rintro ⟨c, -, hc, -⟩
  rw [isCall_of_call? hc] at h
  simp at h

/-- Only the call of a stub is recognized in it. -/
lemma filterMap_test?_stubCall (hp : p.node = s.stubCall name f parts) :
    p.preorder.filterMap (s.test? src) = (s.test? src p).toList := by
  obtain ⟨others, hcalls, hothers⟩ := calls_stubCall hp
  have hnone : others.filterMap (s.test? src) = [] :=
    List.filterMap_eq_nil_iff.mpr fun q hq => test?_eq_none_of_not_hasBlock (hothers q hq)
  have honly : p.preorder.filterMap (s.test? src) =
      (p.preorder.filter isCall).filterMap (s.test? src) := by
    rw [List.filterMap_filter]
    congr 1
    funext q
    cases hq : isCall q with
    | true => rfl
    | false => simp [test?_eq_none_of_not_isCall hq]
  rw [honly, hcalls, List.filterMap_cons, hnone]
  cases s.test? src p <;> rfl

def stubPlace (s : Style) (name : String) (f : CallForm) (parts : List LiteralPart) : Place :=
  (s.stubSource name f parts).rootPlace.down 0 (s.stubCall name f parts)

lemma test?_stubRoot : s.test? src (s.stubSource name f parts).rootPlace = none :=
  test?_eq_none_of_not_isCall (show ("source_file" == "call_expression") = false by decide)

lemma filterMap_test?_stub (s : Style) (name : String) (f : CallForm) (parts : List LiteralPart) :
    (s.stubSource name f parts).rootPlace.preorder.filterMap
        (s.test? (s.stubSource name f parts)) =
      (s.test? (s.stubSource name f parts) (s.stubPlace name f parts)).toList := by
  have hchildren : (s.stubSource name f parts).rootPlace.children = [s.stubPlace name f parts] :=
    rfl
  rw [preorder_eq, hchildren, List.filterMap_cons, test?_stubRoot, List.flatMap_singleton]
  exact filterMap_test?_stubCall rfl

lemma test?_stubCall (hs : s ∈ Style.builtin) (name : String) (f : CallForm)
    (parts : List LiteralPart) :
    ∃ lead, s.test? (s.stubSource name f parts) (s.stubPlace name f parts) = some
      { name := ⟨lead, name, false⟩
        path := [⟨name, false⟩]
        kind := .leaf
        disabled := false
        isRoot := true
        anchor := (s.stubSource name f parts).anchorOf (s.stubPlace name f parts) } := by
  have hsrc : (s.stubSource name f parts).chars = (s.stub name).toList := rfl
  obtain ⟨lead, hleaf⟩ := leaf?_stubCall (p := s.stubPlace name f parts) hs rfl hsrc
  have hroot : s.container? (s.stubSource name f parts) (s.stubSource name f parts).rootPlace =
      none := container?_eq_none_of_test? test?_stubRoot
  have hparents : s.parents (s.stubSource name f parts) (s.stubPlace name f parts) = [] := by
    have hchild : s.stubPlace name f parts ∈ (s.stubSource name f parts).rootPlace.children :=
      List.mem_singleton.mpr rfl
    rw [parents_of_mem_children hchild, hroot]
    rfl
  refine ⟨lead, ?_⟩
  simp [test?, declared?, hleaf, build, hparents, PathEntry.ofName]

/-- A stub is its name between quotes, with no other quotes around it. The quoted name reads back,
and the style recognizes just one test in the stub, an enabled one of that name at the root. -/
theorem stub_recognized (s : Style) (hs : s ∈ Style.builtin) (name : String) :
    (∃ before body after, (s.stub name).toList = before ++ '"' :: body ∧ '"' ∉ before ∧
      upToQuote? body = some (escape name.toList, after) ∧ '"' ∉ after) ∧
    Literal.read ('"' :: (escape name.toList ++ ['"'])) false = ⟨name, false⟩ ∧
    ∀ (f : CallForm) (parts : List LiteralPart), ∃ t,
      (s.stubSource name f parts).rootPlace.preorder.filterMap
        (s.test? (s.stubSource name f parts)) = [t] ∧
      t.name.name = name ∧ t.name.interpolated = false ∧ t.path = [⟨name, false⟩] ∧
      t.kind = .leaf ∧ t.isRoot = true ∧ t.disabled = false := by
  refine ⟨⟨s.stubLead, escape name.toList ++ '"' :: s.stubTail, s.stubTail, ?_, ?_,
    upToQuote?_escape _ _, ?_⟩, ?_, fun f parts => ?_⟩
  · simp [stub_toList, quote]
  · unfold stubLead
    split
    · rename_i keyword hkeyword
      obtain ⟨-, -, hquote, -⟩ := builtin_stubKeyword s hs keyword hkeyword
      simpa using hquote
    · simp
  · unfold stubTail
    split <;> decide
  · exact (read_quote name.toList).trans (by rw [String.ofList_toList])
  · obtain ⟨lead, ht⟩ := test?_stubCall hs name f parts
    exact ⟨_, (filterMap_test?_stub s name f parts).trans (by rw [ht]; rfl), rfl, rfl, rfl, rfl,
      rfl, rfl⟩

/-- A name that a quote and a backslash end. -/
theorem behavior_stub_recognized : Style.behavior ∈ Style.builtin ∧
    Style.behavior.stub "a \"\\" = "then(\"a \\\"\\\\\") \x7b \x7d" ∧
    ∃ t, (Style.behavior.stubSource "a \"\\" ⟨true, false, true⟩
          [.content 6 8, .escape 8 10, .escape 10 12]).rootPlace.preorder.filterMap
        (Style.behavior.test? (Style.behavior.stubSource "a \"\\" ⟨true, false, true⟩
          [.content 6 8, .escape 8 10, .escape 10 12])) = [t] ∧
      t.name.name = "a \"\\" := by
  have hs : Style.behavior ∈ Style.builtin := by decide +kernel
  obtain ⟨-, -, hrecognized⟩ := stub_recognized Style.behavior hs "a \"\\"
  obtain ⟨t, honly, hname, -⟩ :=
    hrecognized ⟨true, false, true⟩ [.content 6 8, .escape 8 10, .escape 10 12]
  exact ⟨hs, by decide +kernel, t, honly, hname⟩

end Style

end SpecLens
