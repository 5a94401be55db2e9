import SpecLens.Proofs.Kotlin.Block

/-!
# A grammar of calls

What the readers of expressions accept, told by rules over the tree instead of by how a reader goes
through it: which parts follow a callee, when two calls are read as one, and what a keyword with a
single string literal is, configured or not. Each reader answers just for what the rules derive.
-/

namespace SpecLens.Kotlin

open Place

variable {src : Source} {p callee : Place} {parts : List Place} {l : Literal} {name : String}

/-- The last element of a list that has a property. -/
def LastWith {α : Type} (P : α → Prop) (as : List α) (a : α) : Prop :=
  ∃ before after, as = before ++ a :: after ∧ P a ∧ ∀ x ∈ after, ¬P x

lemma getLast?_filter_eq_some_iff {α : Type} {f : α → Bool} {as : List α} {a : α} :
    (as.filter f).getLast? = some a ↔ LastWith (f · = true) as a := by
  rw [List.getLast?_eq_head?_reverse, ← List.filter_reverse, List.head?_filter,
    List.find?_eq_some_iff_append]
  constructor
  · rintro ⟨ha, after, before, heq, hafter⟩
    refine ⟨before.reverse, after.reverse, ?_, ha, fun x hx => ?_⟩
    · rw [← List.reverse_reverse as, heq]
      simp
    · simpa using hafter x (List.mem_reverse.mp hx)
  · rintro ⟨before, after, rfl, ha, hafter⟩
    refine ⟨ha, after.reverse, before.reverse, by simp, fun x hx => ?_⟩
    simpa using hafter x (List.mem_reverse.mp hx)

/-- The argument list of a call is the last one among its parts. -/
def Arguments : List Place → Place → Prop := LastWith (·.kind = "value_arguments")

/-- The lambda that a part is, or the first one in the part where it is annotated. -/
inductive Block : Place → Place → Prop
  | plain {block : Place} : block.kind = "lambda_literal" → Block block block
  | annotated {part block : Place} {before after : List Place} : part.kind = "annotated_lambda" →
    part.namedChildren = before ++ block :: after → block.kind = "lambda_literal" →
    (∀ x ∈ before, x.kind ≠ "lambda_literal") → Block part block

/-- The trailing lambda of a call is the one of the last part that may hold one. -/
def Trailing (parts : List Place) (block : Place) : Prop :=
  ∃ part, LastWith (fun x => x.kind = "annotated_lambda" ∨ x.kind = "lambda_literal") parts part ∧
    Block part block

lemma lastArguments_eq_some_iff {arguments : Place} :
    lastArguments parts = some arguments ↔ Arguments parts arguments := by
  simp only [lastArguments, getLast?_filter_eq_some_iff, beq_iff_eq, Arguments]

lemma lastArguments_eq_none_iff : lastArguments parts = none ↔ ∀ a, ¬Arguments parts a := by
  simp only [Option.eq_none_iff_forall_ne_some, ne_eq, lastArguments_eq_some_iff]

lemma lambdaIn_eq_some_iff {part block : Place}
    (hpart : part.kind = "annotated_lambda" ∨ part.kind = "lambda_literal") :
    lambdaIn part = some block ↔ Block part block := by
  constructor
  · intro h
    unfold lambdaIn at h
    split at h
    · rename_i hannotated
      obtain ⟨hkind, before, after, hchildren, hbefore⟩ := List.find?_eq_some_iff_append.mp h
      exact .annotated (beq_iff_eq.mp hannotated) hchildren (beq_iff_eq.mp hkind) (by
        simpa using hbefore)
    · rename_i hplain
      cases Option.some.inj h
      exact .plain (hpart.resolve_left (by simpa using hplain))
  · rintro (hkind | ⟨hannotated, hchildren, hkind, hbefore⟩)
    · simp [lambdaIn, hkind]
    · rw [lambdaIn, if_pos (beq_iff_eq.mpr hannotated), List.find?_eq_some_iff_append]
      exact ⟨beq_iff_eq.mpr hkind, _, _, hchildren, by simpa using hbefore⟩

lemma lastLambda_eq_some_iff {block : Place} :
    lastLambda parts = some block ↔ Trailing parts block := by
  simp only [lastLambda, Option.bind_eq_some_iff, getLast?_filter_eq_some_iff, Bool.or_eq_true,
    beq_iff_eq, Trailing]
  refine exists_congr fun part => and_congr_right fun hlast => ?_
  obtain ⟨-, -, -, hkind, -⟩ := hlast
  exact lambdaIn_eq_some_iff hkind

lemma lastLambda_eq_none_iff : lastLambda parts = none ↔ ∀ block, ¬Trailing parts block := by
  simp only [Option.eq_none_iff_forall_ne_some, ne_eq, lastLambda_eq_some_iff]

lemma lastArguments_append (parts parts' : List Place) :
    lastArguments (parts ++ parts') = (lastArguments parts').or (lastArguments parts) := by
  rw [lastArguments, List.filter_append, List.getLast?_append]
  rfl

lemma lastLambda_append {parts' : List Place} {block : Place} (h : lastLambda parts' = some block) :
    lastLambda (parts ++ parts') = some block := by
  obtain ⟨part, hlast, hblock⟩ := Option.bind_eq_some_iff.mp h
  rw [lastLambda, List.filter_append, List.getLast?_append, hlast]
  exact hblock

/-- A call as the tree has it: an expression and the parts that follow it, out of their wrappers. -/
structure Spelled (p callee : Place) (parts : List Place) : Prop where
  call : p.kind = "call_expression"
  plain : callee.kind ≠ "call_suffix"
  children : ∃ suffixes, p.namedChildren = callee :: suffixes ∧ parts = callTail suffixes

/-- A call of an expression. A lambda without arguments that follows a call without a lambda is
one more part of that call. -/
inductive Applies (p callee : Place) : List Place → Prop
  | spelled {parts : List Place} : Spelled p callee parts → Applies p callee parts
  | merged {inner block : Place} {parts suffix : List Place} : Spelled p inner suffix →
    (∀ a, ¬Arguments suffix a) → Trailing suffix block → Spelled inner callee parts →
    (∀ b, ¬Trailing parts b) → Applies p callee (parts ++ suffix)

lemma Spelled.directCall? (h : Spelled p callee parts) :
    directCall? p = some ⟨p, callee, lastArguments parts, lastLambda parts⟩ := by
  obtain ⟨hcall, hplain, suffixes, hchildren, rfl⟩ := h
  simp [Kotlin.directCall?, isCall, hcall, hchildren, hplain]

lemma exists_spelled {c : Call} (h : directCall? p = some c) : ∃ parts,
    Spelled p c.callee parts ∧ c = ⟨p, c.callee, lastArguments parts, lastLambda parts⟩ := by
  unfold directCall? at h
  split at h
  · cases h
  · rename_i hcall
    split at h
    · cases h
    · rename_i callee suffixes hchildren
      split at h
      · cases h
      · rename_i hplain
        cases h
        exact ⟨_, ⟨by simpa [isCall] using hcall, by simpa using hplain, suffixes, hchildren, rfl⟩,
          rfl⟩

/-- The rules and the reader agree on what is called, unless this is a call that may take part in
a merge itself. -/
lemma Applies.call? (h : Applies p callee parts) (hcallee : isCall callee = false) :
    call? p = some ⟨p, callee, lastArguments parts, lastLambda parts⟩ := by
  cases h with
  | spelled hp =>
    have hnone : directCall? callee = none := by simp [directCall?, hcallee]
    simp [Kotlin.call?, hp.directCall?, hnone]
  | @merged inner block parts suffix hp harguments hblock hinner hbare =>
    have hnone := lastArguments_eq_none_iff.mpr harguments
    have hsome := lastLambda_eq_some_iff.mpr hblock
    have hbare := lastLambda_eq_none_iff.mpr hbare
    rw [lastArguments_append, hnone, lastLambda_append hsome]
    simp [Kotlin.call?, hp.directCall?, hinner.directCall?, hnone, hsome, hbare]

lemma exists_applies {c : Call} (h : call? p = some c) : ∃ parts,
    Applies p c.callee parts ∧ c.arguments = lastArguments parts ∧ c.lambda = lastLambda parts := by
  obtain ⟨outer, houter, rfl⟩ := Option.map_eq_some_iff.mp h
  obtain ⟨suffix, hp, heq⟩ := exists_spelled houter
  have harguments : outer.arguments = lastArguments suffix := by rw [heq]
  have hlambda : outer.lambda = lastLambda suffix := by rw [heq]
  have hkept : ∃ parts, Applies p outer.callee parts ∧
      outer.arguments = lastArguments parts ∧ outer.lambda = lastLambda parts :=
    ⟨suffix, .spelled hp, harguments, hlambda⟩
  split
  · rename_i hmerges
    rw [Bool.and_eq_true, Option.isNone_iff_eq_none, Option.isSome_iff_exists] at hmerges
    obtain ⟨hnone, block, hsome⟩ := hmerges
    rw [harguments] at hnone
    rw [hlambda] at hsome
    split
    · rename_i inner hinner
      obtain ⟨parts, hq, hinnerEq⟩ := exists_spelled hinner
      split
      · rename_i hbare
        rw [hinnerEq, Option.isNone_iff_eq_none] at hbare
        refine ⟨parts ++ suffix, .merged hp (lastArguments_eq_none_iff.mp hnone)
          (lastLambda_eq_some_iff.mp hsome) hq (lastLambda_eq_none_iff.mp hbare), ?_, ?_⟩
        · rw [lastArguments_append, hnone, hinnerEq]
          rfl
        · rw [lastLambda_append hsome, ← hsome]
          exact hlambda
      · exact hkept
    · exact hkept
  · exact hkept

/-- The expression that an argument gives. -/
def ValueOf (argument value : Place) : Prop :=
  argument.kind = "value_argument" ∧ argument.namedChildren.getLast? = some value

/-- One argument in a list gives the value, and no other one gives any. -/
def SoleValue (arguments value : Place) : Prop :=
  ∃ before argument after, arguments.namedChildren = before ++ argument :: after ∧
    ValueOf argument value ∧ ∀ x ∈ before ++ after, ∀ v, ¬ValueOf x v

/-- The parts of a call hold a string literal as the only value. -/
def LiteralAlone (src : Source) (parts : List Place) (l : Literal) : Prop :=
  ∃ arguments value, Arguments parts arguments ∧ SoleValue arguments value ∧
    literal? src value = some l

lemma filterMap_eq_singleton_iff {α β : Type} {f : α → Option β} {as : List α} {b : β} :
    as.filterMap f = [b] ↔ ∃ before a after, as = before ++ a :: after ∧ f a = some b ∧
      ∀ x ∈ before ++ after, f x = none := by
  rw [List.filterMap_eq_cons_iff]
  simp only [List.filterMap_eq_nil_iff, List.mem_append]
  constructor
  · rintro ⟨before, a, after, heq, hbefore, ha, hafter⟩
    exact ⟨before, a, after, heq, ha, fun x hx => hx.elim (hbefore x) (hafter x)⟩
  · rintro ⟨before, a, after, heq, ha, hnone⟩
    exact ⟨before, a, after, heq, fun x hx => hnone x (.inl hx), ha, fun x hx => hnone x (.inr hx)⟩

lemma argumentList_eq_singleton_iff {c : Call} {value : Place} :
    c.argumentList = [value] ↔ ∃ arguments, c.arguments = some arguments ∧
      SoleValue arguments value := by
  have hvalue (x v : Place) : (if x.kind == "value_argument" then x.namedChildren.getLast?
      else none) = some v ↔ ValueOf x v := by
    simp [ValueOf]
  unfold Call.argumentList
  cases c.arguments with
  | none => simp
  | some arguments =>
    simp only [Option.some.injEq, exists_eq_left', List.filterMap_filter, filterMap_eq_singleton_iff,
      Option.eq_none_iff_forall_ne_some, ne_eq, hvalue, SoleValue]

lemma onlyLiteral?_eq_some_iff {c : Call} (hc : c.arguments = lastArguments parts) :
    c.onlyLiteral? src = some l ↔ LiteralAlone src parts l := by
  have hsole : c.onlyLiteral? src = some l ↔
      ∃ value, c.argumentList = [value] ∧ literal? src value = some l := by
    unfold Call.onlyLiteral?
    split
    · rename_i only honly
      simp [honly]
    · rename_i hnone
      constructor
      · intro h
        cases h
      · rintro ⟨value, hvalue, -⟩
        exact (hnone value hvalue).elim
  simp only [hsole, argumentList_eq_singleton_iff, hc, lastArguments_eq_some_iff, LiteralAlone]
  constructor
  · rintro ⟨value, ⟨arguments, harguments, hvalue⟩, hl⟩
    exact ⟨arguments, value, harguments, hvalue, hl⟩
  · rintro ⟨arguments, value, harguments, hvalue, hl⟩
    exact ⟨value, ⟨arguments, harguments, hvalue⟩, hl⟩

/-- An access to a member over a dot: of the nodes out of their wrappers, the first one is the
receiver and the last one the name of the member. -/
structure PlainDot (access receiver member : Place) : Prop where
  kind : access.kind = "navigation_expression"
  first : ((navigationTokens access).filter fun t => t.named && !t.node.isComment).head? =
    some receiver
  last : ((navigationTokens access).filter fun t => t.named && !t.node.isComment).getLast? =
    some member
  distinct : receiver ≠ member
  identifier : isIdentifier member = true
  dot : ∃ t ∈ navigationTokens access, isToken "." t = true

lemma navigation?_eq_some_iff {access receiver member : Place} :
    navigation? access = some ⟨receiver, member⟩ ↔ PlainDot access receiver member := by
  have hbelow {t : Place} (ht : t ∈ (navigationTokens access).filter fun t =>
      t.named && !t.node.isComment) : Below access t :=
    below_of_mem_navigationTokens (List.mem_filter.mp ht).1
  unfold navigation?
  constructor
  · intro h
    split at h
    · cases h
    · rename_i hkind
      dsimp only at h
      split at h
      · rename_i hfirst hlast
        split at h
        · cases h
        · rename_i hguard
          split at h
          · rename_i hdot
            cases h
            simp only [Bool.or_eq_true, Bool.not_eq_true', not_or, Bool.not_eq_false,
              same_iff (hbelow (List.mem_of_mem_head? hfirst))
                (hbelow (List.mem_of_getLast? hlast))] at hguard
            exact ⟨by simpa using hkind, hfirst, hlast, hguard.1, hguard.2, List.any_eq_true.mp hdot⟩
          · cases h
      · cases h
  · rintro ⟨hkind, hfirst, hlast, hdistinct, hidentifier, hdot⟩
    have hsame : receiver.same member = false := by
      rw [← Bool.not_eq_true, same_iff (hbelow (List.mem_of_mem_head? hfirst))
        (hbelow (List.mem_of_getLast? hlast))]
      exact hdistinct
    have hany : (navigationTokens access).any (fun t => !t.named && t.kind == ".") = true :=
      List.any_eq_true.mpr hdot
    simp [hkind, hfirst, hlast, hsame, hidentifier, hany]

/-- A call of a name with a string literal as its only value, and a trailing lambda. -/
inductive Invokes (src : Source) (p : Place) (name : String) (l : Literal) : Prop
  | intro {callee block : Place} {parts : List Place} : Applies p callee parts →
    Trailing parts block → identifierName? src callee = some name → LiteralAlone src parts l →
    Invokes src p name l

/-- A call of a member, with a trailing lambda. What the member belongs to is a call of a name
without a lambda, with a string literal as its only value. -/
inductive Configures (src : Source) (member : String) (p : Place) (name : String) (l : Literal) :
    Prop
  | intro {access receiver identifier callee block : Place} {parts inner : List Place} :
    Applies p access parts → Trailing parts block → PlainDot access receiver identifier →
    identifierName? src identifier = some member → Applies receiver callee inner →
    (∀ b, ¬Trailing inner b) → identifierName? src callee = some name →
    LiteralAlone src inner l → Configures src member p name l

lemma literalOfCall?_eq_some_iff :
    literalOfCall? src [name] p = some l ↔ Invokes src p name l := by
  constructor
  · intro h
    obtain ⟨c, hcall, hkeyword⟩ := Option.bind_eq_some_iff.mp h
    obtain ⟨called, hname, hliteral⟩ := Option.bind_eq_some_iff.mp hkeyword
    split at hliteral
    · rename_i hguard
      simp only [Bool.and_eq_true, List.contains_eq_mem, List.mem_singleton, decide_eq_true_eq,
        Option.isSome_iff_exists] at hguard
      obtain ⟨hcalled, block, hblock⟩ := hguard
      obtain ⟨parts, happlies, harguments, hlambda⟩ := exists_applies hcall
      exact .intro happlies (lastLambda_eq_some_iff.mp (hlambda ▸ hblock)) (hcalled ▸ hname)
        ((onlyLiteral?_eq_some_iff harguments).mp hliteral)
    · cases hliteral
  · rintro ⟨happlies, htrailing, hname, hliteral⟩
    have hcall := happlies.call? (not_isCall_of_identifierName? hname)
    have hblock := lastLambda_eq_some_iff.mpr htrailing
    rw [literalOfCall?, hcall, Option.bind_some, hname, Option.bind_some, if_pos (by simp [hblock])]
    exact (onlyLiteral?_eq_some_iff rfl).mpr hliteral

lemma literalOfChain?_eq_some_iff {member : String} :
    literalOfChain? src [name] member p = some l ↔ Configures src member p name l := by
  constructor
  · intro h
    obtain ⟨d, hdot, hmember⟩ := Option.bind_eq_some_iff.mp h
    split at hmember
    · rename_i hinvokes
      obtain ⟨c, n, block, hcall, haccess, hblock, hidentifier, rfl⟩ :=
        exists_of_invokes hdot hinvokes
      obtain ⟨inner, hinner, hkeyword⟩ := Option.bind_eq_some_iff.mp hmember
      obtain ⟨called, hname, hliteral⟩ := Option.bind_eq_some_iff.mp hkeyword
      split at hliteral
      · rename_i hguard
        simp only [Bool.and_eq_true, Option.isNone_iff_eq_none, List.contains_eq_mem,
          List.mem_singleton, decide_eq_true_eq] at hguard
        obtain ⟨hbare, hcalled⟩ := hguard
        obtain ⟨parts, happlies, -, hlambda⟩ := exists_applies hcall
        obtain ⟨innerParts, happliesInner, harguments, hinnerLambda⟩ := exists_applies hinner
        exact .intro happlies (lastLambda_eq_some_iff.mp (hlambda ▸ hblock))
          (navigation?_eq_some_iff.mp haccess) hidentifier happliesInner
          (lastLambda_eq_none_iff.mp (hinnerLambda ▸ hbare)) (hcalled ▸ hname)
          ((onlyLiteral?_eq_some_iff harguments).mp hliteral)
      · cases hliteral
    · cases hmember
  · rintro ⟨happlies, htrailing, haccess, hidentifier, hinner, hbare, hname, hliteral⟩
    have hnavigation := navigation?_eq_some_iff.mpr haccess
    have hcall := happlies.call? (not_isCall_of_navigation? hnavigation)
    have hinnerCall := hinner.call? (not_isCall_of_identifierName? hname)
    have hblock := lastLambda_eq_some_iff.mpr htrailing
    have hnone := lastLambda_eq_none_iff.mpr hbare
    rw [literalOfChain?, dotExpression?, if_pos (isCall_of_call? hcall), hcall, Option.bind_some,
      hnavigation, Option.map_some, Option.bind_some,
      if_pos (by simp [DotExpression.invokes, hidentifier, hblock]), hinnerCall, Option.bind_some,
      hname, Option.bind_some, if_pos (by simp [hnone])]
    exact (onlyLiteral?_eq_some_iff rfl).mpr hliteral

end SpecLens.Kotlin
