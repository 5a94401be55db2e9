import Mathlib.Data.List.Basic
import Mathlib.Tactic.Lemma
import SpecLens.Kotlin.Literal

/-!
# Quoted texts read back

A text between quotes, escaped, reads as itself and without template entries. The closing quote is
found because an escaped text never ends in a single backslash, and no such literal is taken for a
raw one because an escaped text never starts with a quote. Where the closing quote is missing, an
escaped quote at the end may be taken for it.
-/

namespace SpecLens.Kotlin

open Text

lemma head?_escapeChar_append (c : Char) (cs : List Char) :
    ∃ d ∈ (escapeChar c ++ cs).head?, d ≠ '"' := by
  unfold escapeChar
  split
  case h_7 _ hquote _ _ _ _ => exact ⟨c, rfl, hquote⟩
  all_goals exact ⟨'\\', rfl, by decide⟩

lemma head?_escape_ne (cs : List Char) : (escape cs).head? ≠ some '"' := by
  cases cs with
  | nil => simp [escape]
  | cons c cs =>
    obtain ⟨d, hd, hquote⟩ := head?_escapeChar_append c (escape cs)
    rw [escape_cons, Option.mem_def.mp hd]
    exact fun h => hquote (Option.some.inj h)

lemma getLast?_escapeChar_iff {c d : Char} (hd : d = '\\' ∨ d = '"') :
    (escapeChar c).getLast? = some d ↔ c = d := by
  unfold escapeChar
  split <;> rcases hd with rfl | rfl <;> simp_all

lemma escape_append (cs cs' : List Char) : escape (cs ++ cs') = escape cs ++ escape cs' :=
  List.flatMap_append

/-- An escaped text ends in a backslash or a quote exactly if the text does. -/
lemma suffix_escape_iff {d : Char} {cs : List Char} (hd : d = '\\' ∨ d = '"') :
    [d] <:+ escape cs ↔ [d] <:+ cs := by
  rw [List.singleton_suffix_iff_getLast?_eq_some, List.singleton_suffix_iff_getLast?_eq_some]
  rcases List.eq_nil_or_concat cs with rfl | ⟨init, c, rfl⟩
  · simp [escape]
  · have hone : escape [c] = escapeChar c := by simp [escape]
    have hne : escapeChar c ≠ [] := by
      unfold escapeChar
      split <;> simp
    rw [List.concat_eq_append, escape_append, hone, List.getLast?_append_of_ne_nil _ hne,
      getLast?_escapeChar_iff hd]
    simp

/-- Only an escaped backslash ends in one. -/
lemma backslash_suffix_escape {cs : List Char} (h : ['\\'] <:+ escape cs) :
    ['\\', '\\'] <:+ escape cs := by
  obtain ⟨init, rfl⟩ := (suffix_escape_iff (.inl rfl)).mp h
  rw [escape_append]
  exact List.suffix_append _ _

lemma dropLead?_rawQuote_open {cs : List Char} (h : ¬['"', '"'] <+: cs) :
    dropLead? rawQuote ('"' :: cs) = none := by
  rw [Option.eq_none_iff_forall_ne_some]
  intro rest hrest
  rw [dropLead?_eq_some_iff, rawQuote, List.cons_append, List.cons.injEq] at hrest
  exact h ⟨rest, hrest.2.symm⟩

lemma not_two_quotes {cs : List Char} (h : cs.head? ≠ some '"') : ¬['"', '"'] <+: cs := by
  rintro ⟨rest, rfl⟩
  exact h rfl

lemma not_two_quotes_closed {cs : List Char} (h : cs.head? ≠ some '"') :
    ¬['"', '"'] <+: cs ++ ['"'] := by
  cases cs with
  | nil => decide
  | cons c cs => exact not_two_quotes h

/-- A quote at the end counts as the closing one unless a single backslash stands before it. -/
lemma quotedBody_closed (cs : List Char) :
    quotedBody ('"' :: (cs ++ ['"'])) =
      if ['\\'] <:+ cs ∧ ¬['\\', '\\'] <:+ cs then cs ++ ['"'] else cs := by
  have hopen : dropLead? ['"'] ('"' :: (cs ++ ['"'])) = some (cs ++ ['"']) :=
    dropLead?_eq_some_iff.mpr rfl
  have hclose : dropTail? ['"'] (cs ++ ['"']) = some cs := dropTail?_eq_some_iff.mpr rfl
  simp only [quotedBody, hopen, Option.getD_some, hclose, Bool.and_eq_true, Bool.not_eq_true',
    ← Bool.not_eq_true, List.isSuffixOf_iff_suffix]

lemma quotedBody_unclosed {cs : List Char} (h : ¬['"'] <:+ cs) : quotedBody ('"' :: cs) = cs := by
  have hopen : dropLead? ['"'] ('"' :: cs) = some cs := dropLead?_eq_some_iff.mpr rfl
  have hclose : dropTail? ['"'] cs = none := by
    rw [Option.eq_none_iff_forall_ne_some]
    intro rest hrest
    exact h ⟨rest, (dropTail?_eq_some_iff.mp hrest).symm⟩
  simp only [quotedBody, hopen, Option.getD_some, hclose]

lemma quotedBody_quote (cs : List Char) : quotedBody (quote cs) = escape cs := by
  rw [quote, quotedBody_closed, if_neg]
  exact fun ⟨hone, htwo⟩ => htwo (backslash_suffix_escape hone)

/-- The text before the first quote that no backslash escapes, and the text behind that quote. -/
def upToQuote? : List Char → Option (List Char × List Char)
  | [] => none
  | '"' :: cs => some ([], cs)
  | '\\' :: c :: cs => (upToQuote? cs).map fun (body, rest) => ('\\' :: c :: body, rest)
  | c :: cs => (upToQuote? cs).map fun (body, rest) => (c :: body, rest)

lemma upToQuote?_escapeChar_append (c : Char) (cs : List Char) :
    upToQuote? (escapeChar c ++ cs) =
      (upToQuote? cs).map fun (body, rest) => (escapeChar c ++ body, rest) := by
  unfold escapeChar
  split
  case h_7 =>
    rw [List.singleton_append, upToQuote?] <;> simp_all
  all_goals rfl

/-- A literal ends where its text does. -/
theorem upToQuote?_escape (cs rest : List Char) :
    upToQuote? (escape cs ++ '"' :: rest) = some (escape cs, rest) := by
  induction cs with
  | nil => rfl
  | cons c cs ih =>
    rw [escape_cons, List.append_assoc, upToQuote?_escapeChar_append, ih, Option.map_some]

/-- A quoted text reads back, and not as a hint only. -/
theorem read_quote (cs : List Char) :
    Literal.read (quote cs) false = ⟨String.ofList cs, false⟩ := by
  have hraw : dropLead? rawQuote (quote cs) = none :=
    dropLead?_rawQuote_open (not_two_quotes_closed (head?_escape_ne cs))
  rw [Literal.read, hraw]
  simp only [quotedBody_quote, unescape_escape, hasEntry_escape, Bool.or_false]

lemma unescape_escape_append (cs rest : List Char) :
    unescape (escape cs ++ rest) = cs ++ unescape rest := by
  induction cs with
  | nil => rfl
  | cons c cs ih =>
    rw [escape_cons, List.append_assoc, unescape_escapeChar_append, ih, List.cons_append]

lemma hasEntryFrom_escape_append (cs rest : List Char) :
    hasEntryFrom true (escape cs ++ rest) = hasEntryFrom true rest := by
  induction cs with
  | nil => rfl
  | cons c cs ih => rw [escape_cons, List.append_assoc, hasEntryFrom_escapeChar_append, ih]

/-- What is read of an escaped text whose closing quote is missing hangs on where its body ends. -/
lemma read_unclosed {cs body : List Char} (h : quotedBody ('"' :: escape cs) = body) :
    Literal.read ('"' :: escape cs) false = ⟨String.ofList (unescape body), hasEntry body⟩ := by
  have hraw : dropLead? rawQuote ('"' :: escape cs) = none :=
    dropLead?_rawQuote_open (not_two_quotes (head?_escape_ne cs))
  rw [Literal.read, hraw]
  simp only [h, Bool.false_or]

/-- No quote is dropped that a single backslash escapes. -/
lemma quotedBody_escape {cs : List Char} (hend : ¬['\\', '"'] <:+ cs) :
    quotedBody ('"' :: escape cs) = escape cs := by
  by_cases hquote : ['"'] <:+ cs
  swap
  · exact quotedBody_unclosed fun h => hquote ((suffix_escape_iff (.inr rfl)).mp h)
  obtain ⟨init, rfl⟩ := hquote
  have hbackslash : ¬['\\'] <:+ init := by
    rintro ⟨before, rfl⟩
    exact hend ⟨before, by simp⟩
  have hsplit : escape (init ++ ['"']) = (escape init ++ ['\\']) ++ ['"'] := by
    rw [escape_append, List.append_assoc]
    rfl
  rw [hsplit, quotedBody_closed, if_pos]
  refine ⟨List.suffix_append _ _, ?_⟩
  rintro ⟨before, hbefore⟩
  have hlast : before ++ ['\\'] = escape init := by
    rw [List.append_cons before '\\' ['\\'], List.append_left_inj] at hbefore
    exact hbefore
  exact hbackslash ((suffix_escape_iff (.inl rfl)).mp ⟨before, hlast⟩)

/-- A quote behind a backslash is written as three backslashes and a quote. The quote is dropped,
and the backslash that escaped it is left. -/
lemma read_unclosed_backslash_quote (cs : List Char) :
    Literal.read ('"' :: escape (cs ++ ['\\', '"'])) false =
      ⟨String.ofList (cs ++ ['\\', '\\']), false⟩ := by
  have hsplit : escape (cs ++ ['\\', '"']) = (escape cs ++ ['\\', '\\', '\\']) ++ ['"'] := by
    rw [escape_append, List.append_assoc]
    rfl
  have hbody : quotedBody ('"' :: escape (cs ++ ['\\', '"'])) =
      escape cs ++ ['\\', '\\', '\\'] := by
    have htwo : ['\\', '\\'] <:+ escape cs ++ ['\\', '\\', '\\'] :=
      ⟨escape cs ++ ['\\'], by simp⟩
    rw [hsplit, quotedBody_closed, if_neg fun h => h.2 htwo]
  have htext : unescape ['\\', '\\', '\\'] = ['\\', '\\'] := by simp [unescape, escaped]
  rw [read_unclosed hbody, unescape_escape_append, htext, hasEntry, hasEntryFrom_escape_append]
  rfl

/-- An escaped text without its closing quote reads back unless it ends in a backslash and a quote.
Then that quote, although it is escaped, is taken for the closing one. -/
theorem read_unclosed_iff (cs : List Char) :
    (Literal.read ('"' :: escape cs) false = ⟨String.ofList cs, false⟩ ↔ ¬['\\', '"'] <:+ cs) ∧
      Literal.read ('"' :: escape (cs ++ ['\\', '"'])) false =
        ⟨String.ofList (cs ++ ['\\', '\\']), false⟩ := by
  refine ⟨⟨?_, fun hend => ?_⟩, read_unclosed_backslash_quote cs⟩
  · rintro hread ⟨init, rfl⟩
    rw [read_unclosed_backslash_quote] at hread
    simpa using congrArg Literal.text hread
  · rw [read_unclosed (quotedBody_escape hend), unescape_escape, hasEntry_escape]

/-- The shortest such text is a backslash and a quote. -/
theorem unclosed_quote_dropped :
    Literal.read "\"\\\\\\\"".toList false = ⟨"\\\\", false⟩ ∧
      Literal.read ('"' :: escape "\\\"".toList) false ≠ ⟨"\\\"", false⟩ := by
  have hread : Literal.read "\"\\\\\\\"".toList false = ⟨"\\\\", false⟩ :=
    read_unclosed_backslash_quote []
  refine ⟨hread, ?_⟩
  rw [show '"' :: escape "\\\"".toList = "\"\\\\\\\"".toList from rfl, hread]
  decide

end SpecLens.Kotlin
