import Mathlib.Data.List.Basic
import Mathlib.Tactic.IntervalCases
import Mathlib.Tactic.Lemma
import SpecLens.Toml.Printer
import SpecLens.Toml.Scalar

/-!
# Quoted strings read back

Each way of quoting has a reader, which finds the text again. Between three quotes up to two of them
may stand as they are, also at the end of the text, where they join those that close it.
-/

namespace SpecLens.Toml

open Text (hexDigit? hexValue?)

variable {c : Char} {cs rest : List Char}

/-- What follows a value: the end of its line, or a comma or bracket of the array around it. -/
inductive Delimited : List Char → Prop where
  | line (rest : List Char) : Delimited ('\n' :: rest)
  | comma (rest : List Char) : Delimited (',' :: rest)
  | bracket (rest : List Char) : Delimited (']' :: rest)

lemma isCommentChar_of_not_needsEscape (hplain : needsEscape c = false) (hbreak : c ≠ '\n') :
    isCommentChar c = true := by
  by_cases htab : c = '\t'
  · subst htab
    rfl
  · simp [needsEscape, htab, hbreak] at hplain
    simp [isCommentChar, htab]
    omega

lemma hexDigit?_hexDigit : ∀ n < 16, hexDigit? (hexDigit n) = some n := by
  decide

lemma hexValue?_hexDigits {n : Nat} (hn : n < 65536) : hexValue? 0 (hexDigits n) = some n := by
  have hdigit (m : Nat) : hexDigit? (hexDigit (m % 16)) = some (m % 16) :=
    hexDigit?_hexDigit _ (Nat.mod_lt _ (by decide))
  simp only [hexDigits, hexValue?, hdigit, Option.bind_some, Option.some.injEq]
  omega

/-- A character below 2 ^ 16 is read back from its digits. -/
lemma codePoint?_hexDigits (hc : c.toNat < 65536) :
    codePoint? 4 (hexDigits c.toNat ++ rest) = some (c, rest) := by
  have hlength : (hexDigits c.toNat).length = 4 := rfl
  simp only [codePoint?, List.length_append, hlength, List.take_left' hlength,
    List.drop_left' hlength, hexValue?_hexDigits hc, Option.bind_some]
  have hvalid : c.toNat.isValidChar := c.valid
  rw [if_neg (by omega), if_pos hvalid, Char.ofNat_toNat]

/-- The ways in which a character can stand between double quotes: as it is, or as a code behind a
backslash that does not end its line. -/
inductive Written (multi : Bool) (c : Char) : List Char → Prop where
  | plain (hquote : c ≠ '"') (hbackslash : c ≠ '\\')
      (hc : isCommentChar c = true ∨ multi = true ∧ c = '\n') : Written multi c [c]
  | escaped (code : List Char)
      (hcode : ∀ rest, escape? (code ++ rest) = some (c, rest) ∧
        afterBreak? (skipSpace (code ++ rest)) = none) : Written multi c ('\\' :: code)

/-- What is written starts with no quote, and with no break unless it is the character itself. -/
lemma Written.head_ne {w : List Char} {multi : Bool} (hw : Written multi c w) :
    ∃ d tail, w = d :: tail ∧ d ≠ '"' ∧ d ≠ '\r' ∧ (c ≠ '\n' → d ≠ '\n') := by
  cases hw with
  | plain hquote hbackslash hc =>
    refine ⟨c, [], rfl, hquote, ?_, id⟩
    rintro rfl
    simp [isCommentChar] at hc
  | escaped code => exact ⟨'\\', code, rfl, by decide, by decide, fun _ => by decide⟩

lemma written_quote (multi : Bool) : Written multi '"' ['\\', '"'] :=
  .escaped ['"'] fun _ => ⟨rfl, rfl⟩

lemma written_escapeChar (multi : Bool) (hquote : c ≠ '"') :
    Written multi c (escapeChar multi c) := by
  unfold escapeChar
  split_ifs with hbackslash htab hbreak hmulti hreturn hback hfeed hescape
  · exact .escaped ['\\'] fun rest => ⟨by rw [hbackslash]; rfl, rfl⟩
  · exact .escaped ['t'] fun rest => ⟨by rw [htab]; rfl, rfl⟩
  · exact .plain hquote hbackslash (.inr ⟨hmulti, hbreak⟩)
  · exact .escaped ['n'] fun rest => ⟨by rw [hbreak]; rfl, rfl⟩
  · exact .escaped ['r'] fun rest => ⟨by rw [hreturn]; rfl, rfl⟩
  · exact .escaped ['b'] fun rest => ⟨by rw [← Char.ofNat_toNat c, hback]; rfl, rfl⟩
  · exact .escaped ['f'] fun rest => ⟨by rw [← Char.ofNat_toNat c, hfeed]; rfl, rfl⟩
  · have hcontrol : c.toNat < 65536 := by
      simp [needsEscape] at hescape
      omega
    exact .escaped ('u' :: hexDigits c.toNat) fun rest => ⟨codePoint?_hexDigits hcontrol, rfl⟩
  · rw [Bool.not_eq_true] at hescape
    exact .plain hquote hbackslash (.inl (isCommentChar_of_not_needsEscape hescape hbreak))

/-- A character is written in one of these ways, unless it is a quote that may stand as it is. -/
lemma escapeBody_cons (multi : Bool) (free : Nat) (c : Char) (cs : List Char) :
    (∃ n, free = n + 1 ∧ c = '"' ∧
        escapeBody multi free (c :: cs) = '"' :: escapeBody multi n cs) ∨
      ∃ w, Written multi c w ∧
        escapeBody multi free (c :: cs) = w ++ escapeBody multi (if multi then 2 else 0) cs := by
  by_cases hquote : c = '"'
  · subst hquote
    cases free with
    | zero => exact .inr ⟨['\\', '"'], written_quote multi, rfl⟩
    | succ n => exact .inl ⟨n, rfl, rfl, rfl⟩
  · exact .inr ⟨escapeChar multi c, written_escapeChar multi hquote, by
      simp only [escapeBody, if_neg hquote]⟩

lemma escapeBody_zero_cons (multi : Bool) (c : Char) (cs : List Char) :
    ∃ w, Written multi c w ∧
      escapeBody multi 0 (c :: cs) = w ++ escapeBody multi (if multi then 2 else 0) cs := by
  rcases escapeBody_cons multi 0 c cs with ⟨n, hn, -⟩ | h
  · cases hn
  · exact h

lemma Written.basicBody {w : List Char} {fuel : Nat} (hw : Written false c w) :
    basicBody (fuel + 1) (w ++ cs) = cons c (basicBody fuel cs) := by
  cases hw with
  | plain hquote hbackslash hc =>
    have hbasic : isBasicChar c = true := by
      simpa [isBasicChar, hquote, hbackslash] using hc
    rw [List.singleton_append, Toml.basicBody, if_pos hbasic]
    · simpa using hquote
    · simpa using hbackslash
  | escaped code hcode => rw [List.cons_append, Toml.basicBody, (hcode cs).1, Option.bind_some]

/-- The reader finds the text that was written between double quotes on one line. -/
lemma basicBody_escapeBody {fuel : Nat} (hfuel : (escapeBody false 0 cs).length < fuel) :
    basicBody fuel (escapeBody false 0 cs ++ '"' :: rest) = some (cs, rest) := by
  induction cs generalizing fuel with
  | nil =>
    obtain ⟨fuel, rfl⟩ := Nat.exists_eq_add_one_of_ne_zero (by omega : fuel ≠ 0)
    rfl
  | cons c cs ih =>
    obtain ⟨fuel, rfl⟩ := Nat.exists_eq_add_one_of_ne_zero (by omega : fuel ≠ 0)
    obtain ⟨w, hw, hbody⟩ := escapeBody_zero_cons false c cs
    have hlength : 0 < w.length := by cases hw <;> simp
    rw [if_neg Bool.false_ne_true] at hbody
    rw [hbody, List.length_append] at hfuel
    rw [hbody, List.append_assoc, hw.basicBody, ih (by omega)]
    rfl

/-! ### Strings between three quotes -/

lemma replicate_append_cons (c : Char) (n : Nat) (cs : List Char) :
    List.replicate n c ++ c :: cs = List.replicate (n + 1) c ++ cs := by
  rw [List.replicate_succ', List.append_assoc, List.singleton_append]

/-- Quotes in front of those that close a text belong to it. -/
lemma closing_replicate {q : Char} {n : Nat} (hn : n ≤ 2) (hrest : rest.head? ≠ some q) :
    closing q (List.replicate n q ++ rest) = (List.replicate n q, rest) := by
  have hnone : rest.takeWhile (· == q) = [] := by
    cases rest with
    | nil => rfl
    | cons d rest => simp_all
  have htake : (List.replicate n q ++ rest).takeWhile (· == q) = List.replicate n q := by
    rw [List.takeWhile_append_of_pos (by simp), hnone, List.append_nil]
  simp [closing, htake, List.take_of_length_le, hn]

lemma Written.multiBasicBody {w : List Char} {fuel : Nat} (hw : Written true c w) :
    multiBasicBody (fuel + 1) (w ++ cs) = cons c (multiBasicBody fuel cs) := by
  cases hw with
  | plain hquote hbackslash hc =>
    have hreturn : c ≠ '\r' := by
      rintro rfl
      simp [isCommentChar] at hc
    have hplain : (isBasicChar c || c == '"' || c == '\n') = true := by
      simpa [isBasicChar, hquote, hbackslash] using hc
    rw [List.singleton_append, Toml.multiBasicBody, if_pos hplain]
    · exact fun _ h _ => hquote h
    · exact hbackslash
    · exact fun _ h _ => hreturn h
  | escaped code hcode =>
    obtain ⟨hread, hjoin⟩ := hcode cs
    simp only [List.cons_append, Toml.multiBasicBody, hjoin, hread, Option.bind_some]

/-- Up to two quotes in front of another character stand for themselves. -/
lemma multiBasicBody_replicate {fuel n : Nat} {text tail : List Char} (hn : n ≤ 2) (hc : c ≠ '"')
    (hread : multiBasicBody fuel (c :: cs) = some (text, tail)) :
    multiBasicBody (fuel + n) (List.replicate n '"' ++ c :: cs) =
      some (List.replicate n '"' ++ text, tail) := by
  interval_cases n
  · exact hread
  · simp [multiBasicBody, isBasicChar, cons, hc, hread]
  · simp [List.replicate, multiBasicBody, isBasicChar, cons, hc, hread]

/-- The reader finds the text that was written between three double quotes, here `n` quotes before
the rest of it. -/
lemma multiBasicBody_escapeBody {fuel n : Nat} (hn : n ≤ 2) (hrest : rest.head? ≠ some '"')
    (hfuel : n + (escapeBody true (2 - n) cs).length < fuel) :
    multiBasicBody fuel
        (List.replicate n '"' ++ escapeBody true (2 - n) cs ++ (['"', '"', '"'] ++ rest)) =
      some (List.replicate n '"' ++ cs, rest) := by
  induction cs generalizing n fuel with
  | nil =>
    obtain ⟨fuel, rfl⟩ := Nat.exists_eq_add_one_of_ne_zero (by omega : fuel ≠ 0)
    have hquotes : List.replicate n '"' ++ escapeBody true (2 - n) [] ++ (['"', '"', '"'] ++ rest) =
        '"' :: '"' :: '"' :: (List.replicate n '"' ++ rest) := by
      interval_cases n <;> rfl
    rw [hquotes, multiBasicBody, closing_replicate hn hrest, List.append_nil]
  | cons c cs ih =>
    rcases escapeBody_cons true (2 - n) c cs with ⟨m, hm, rfl, hbody⟩ | ⟨w, hw, hbody⟩
    · -- the quote stands as it is, so one more is pending and one less may follow
      obtain rfl : m = 2 - (n + 1) := by omega
      rw [hbody, List.length_cons] at hfuel
      rw [hbody, replicate_append_cons, replicate_append_cons]
      exact ih (by omega) (by omega)
    · -- what is written ends the run of pending quotes
      obtain ⟨d, tail, rfl, hd, -⟩ := hw.head_ne
      rw [if_pos rfl] at hbody
      rw [hbody, List.length_append, List.length_cons] at hfuel
      obtain ⟨fuel, rfl⟩ : ∃ f, fuel = f + 1 + n := ⟨fuel - 1 - n, by omega⟩
      have htext : multiBasicBody fuel
          (escapeBody true 2 cs ++ (['"', '"', '"'] ++ rest)) = some (cs, rest) :=
        ih (Nat.zero_le 2) (by rw [Nat.sub_zero]; omega)
      have hread : multiBasicBody (fuel + 1)
          (d :: (tail ++ (escapeBody true 2 cs ++ (['"', '"', '"'] ++ rest)))) =
            some (c :: cs, rest) := by
        rw [← List.cons_append, hw.multiBasicBody, htext]
        rfl
      simpa [hbody] using multiBasicBody_replicate hn hd hread

lemma isLiteralChar_of_not_needsEscape (hplain : needsEscape c = false) (hbreak : c ≠ '\n')
    (hquote : c ≠ '\'') : isLiteralChar c = true := by
  simpa [isLiteralChar, hquote] using isCommentChar_of_not_needsEscape hplain hbreak

/-- The reader finds a text without single quotes. -/
lemma literalBody_append (hplain : ∀ c ∈ cs, needsEscape c = false ∧ c ≠ '\n' ∧ c ≠ '\'') :
    literalBody (cs ++ '\'' :: rest) = some (cs, rest) := by
  induction cs with
  | nil => rfl
  | cons c cs ih =>
    obtain ⟨⟨hescape, hbreak, hquote⟩, hplain⟩ := List.forall_mem_cons.mp hplain
    rw [List.cons_append, literalBody, ih hplain,
      if_pos (isLiteralChar_of_not_needsEscape hescape hbreak hquote)]
    · rfl
    · exact hquote

lemma le_longestRun (c : Char) (run : Nat) (cs : List Char) : run ≤ longestRun c run cs := by
  induction cs generalizing run with
  | nil => exact Nat.le_refl run
  | cons d cs ih =>
    rw [longestRun]
    split
    · exact Nat.le_trans (Nat.le_succ run) (ih (run + 1))
    · exact Nat.le_max_left _ _

lemma multiLiteralBody_replicate {n : Nat} {text tail : List Char} (hn : n ≤ 2) (hc : c ≠ '\'')
    (hread : multiLiteralBody (c :: cs) = some (text, tail)) :
    multiLiteralBody (List.replicate n '\'' ++ c :: cs) =
      some (List.replicate n '\'' ++ text, tail) := by
  interval_cases n
  · exact hread
  · simp [multiLiteralBody, isLiteralChar, cons, hc, hread]
  · simp [List.replicate, multiLiteralBody, isLiteralChar, cons, hc, hread]

/-- The reader finds a text without three single quotes in a row, here `n` quotes before the rest
of it. -/
lemma multiLiteralBody_append {n : Nat} (hplain : ∀ c ∈ cs, needsEscape c = false)
    (hruns : longestRun '\'' n cs ≤ 2) (hrest : rest.head? ≠ some '\'') :
    multiLiteralBody (List.replicate n '\'' ++ cs ++ (['\'', '\'', '\''] ++ rest)) =
      some (List.replicate n '\'' ++ cs, rest) := by
  have hn : n ≤ 2 := (le_longestRun _ n cs).trans hruns
  induction cs generalizing n with
  | nil =>
    have hquotes : List.replicate n '\'' ++ [] ++ (['\'', '\'', '\''] ++ rest) =
        '\'' :: '\'' :: '\'' :: (List.replicate n '\'' ++ rest) := by
      interval_cases n <;> rfl
    rw [hquotes, multiLiteralBody, closing_replicate hn hrest, List.append_nil]
  | cons c cs ih =>
    obtain ⟨hescape, htail⟩ := List.forall_mem_cons.mp hplain
    rw [longestRun] at hruns
    by_cases hquote : c = '\''
    · subst hquote
      rw [if_pos rfl] at hruns
      rw [replicate_append_cons]
      exact ih htail hruns ((le_longestRun _ _ cs).trans hruns)
    · rw [if_neg hquote] at hruns
      have htext : multiLiteralBody (cs ++ (['\'', '\'', '\''] ++ rest)) = some (cs, rest) :=
        ih htail ((Nat.le_max_right n _).trans hruns) (Nat.zero_le 2)
      have hread : multiLiteralBody (c :: (cs ++ (['\'', '\'', '\''] ++ rest))) =
          some (c :: cs, rest) := by
        have hchar : (isLiteralChar c || c == '\'' || c == '\n') = true := by
          by_cases hbreak : c = '\n'
          · simp [hbreak]
          · simp [isLiteralChar_of_not_needsEscape hescape hbreak hquote]
        rw [multiLiteralBody, if_pos hchar, htext]
        · rfl
        · exact fun _ h _ => hquote h
        · rintro _ rfl
          cases hescape
      simpa using multiLiteralBody_replicate hn hquote hread

lemma not_mem_of_longestRun_eq_zero (hrun : longestRun c 0 cs = 0) : c ∉ cs := by
  induction cs with
  | nil => exact List.not_mem_nil
  | cons d cs ih =>
    rw [longestRun] at hrun
    split at hrun
    · have := le_longestRun c (0 + 1) cs
      omega
    · rename_i hd
      rw [Nat.zero_max] at hrun
      exact List.not_mem_cons_of_ne_of_not_mem (Ne.symm hd) (ih hrun)

/-- Texts between single quotes need no escapes and do not hold the quotes that close them. -/
lemma Quoting.of_spec (cs : List Char) :
    (Quoting.of cs = .literal → ∀ c ∈ cs, needsEscape c = false ∧ c ≠ '\n' ∧ c ≠ '\'') ∧
      (Quoting.of cs = .multiLiteral →
        (∀ c ∈ cs, needsEscape c = false) ∧ longestRun '\'' 0 cs ≤ 2) := by
  simp only [Quoting.of]
  constructor
  · intro hliteral
    split_ifs at hliteral with hbasic hplain
    simp at hplain
    obtain ⟨⟨hescape, hsingle⟩, hbreak⟩ := hplain
    have hquote := not_mem_of_longestRun_eq_zero hsingle
    exact fun c hc => ⟨hescape c hc, fun h => hbreak (h ▸ hc), fun h => hquote (h ▸ hc)⟩
  · intro hmulti
    split_ifs at hmulti with hbasic hliteral hdouble hplain
    simpa using hplain

lemma afterBreak?_cons (hbreak : c ≠ '\n') (hreturn : c ≠ '\r') : afterBreak? (c :: cs) = none := by
  unfold afterBreak?
  split
  · rename_i h
    cases h
    exact absurd rfl hbreak
  · rename_i h
    cases h
    exact absurd rfl hreturn
  · rfl

/-- The break after the opening quotes is not part of the text. -/
lemma dropFirstBreak_lead {lead : Bool} (h : lead = false → afterBreak? cs = none) :
    dropFirstBreak ((if lead then ['\n'] else []) ++ cs) = cs := by
  cases lead with
  | false => simp [dropFirstBreak, h rfl]
  | true => rfl

lemma string?_double (hcs : ¬['"', '"'] <+: cs) :
    string? ('"' :: cs) = basicBody (cs.length + 1) cs := by
  rw [string?, lineString?]
  · rintro tail h
    cases h
    exact hcs ⟨tail, rfl⟩
  · simp

lemma string?_single (hcs : ¬['\'', '\''] <+: cs) : string? ('\'' :: cs) = literalBody cs := by
  rw [string?, lineString?]
  · simp
  · rintro tail h
    cases h
    exact hcs ⟨tail, rfl⟩

lemma string?_basic (hrest : rest.head? ≠ some '"') :
    string? ('"' :: (escapeBody false 0 cs ++ '"' :: rest)) = some (cs, rest) := by
  have hfuel : (escapeBody false 0 cs).length < (escapeBody false 0 cs ++ '"' :: rest).length + 1 := by
    rw [List.length_append]
    omega
  rw [string?_double, basicBody_escapeBody hfuel]
  cases cs with
  | nil =>
    cases rest with
    | nil => decide
    | cons d rest => simpa [escapeBody, eq_comm] using hrest
  | cons c cs =>
    obtain ⟨w, hw, hbody⟩ := escapeBody_zero_cons false c cs
    obtain ⟨d, tail, rfl, hd, -⟩ := hw.head_ne
    simp [hbody, hd.symm]

lemma string?_literal (hplain : ∀ c ∈ cs, needsEscape c = false ∧ c ≠ '\n' ∧ c ≠ '\'')
    (hrest : rest.head? ≠ some '\'') :
    string? ('\'' :: (cs ++ '\'' :: rest)) = some (cs, rest) := by
  rw [string?_single, literalBody_append hplain]
  cases cs with
  | nil =>
    cases rest with
    | nil => decide
    | cons d rest => simpa [eq_comm] using hrest
  | cons c cs => simp [(hplain c (by simp)).2.2.symm]

lemma string?_multiBasic (hrest : rest.head? ≠ some '"') :
    string? (['"', '"', '"'] ++ ((if cs.contains '\n' then ['\n'] else []) ++
      (escapeBody true 2 cs ++ (['"', '"', '"'] ++ rest)))) = some (cs, rest) := by
  have hfuel : 0 + (escapeBody true 2 cs).length <
      (escapeBody true 2 cs ++ (['"', '"', '"'] ++ rest)).length + 1 := by
    rw [List.length_append]
    omega
  have hbody := multiBasicBody_escapeBody (Nat.zero_le 2) hrest hfuel
  simp only [List.cons_append, List.nil_append] at hbody ⊢
  rw [string?, dropFirstBreak_lead]
  · exact hbody
  · intro hbreak
    cases cs with
    | nil => rfl
    | cons c cs =>
      rcases escapeBody_cons true 2 c cs with ⟨n, -, -, hbody⟩ | ⟨w, hw, hbody⟩
      · rw [hbody]
        exact afterBreak?_cons (by decide) (by decide)
      · obtain ⟨d, tail, rfl, -, hreturn, hline⟩ := hw.head_ne
        have hc : c ≠ '\n' := by
          rintro rfl
          simp at hbreak
        rw [hbody]
        exact afterBreak?_cons (hline hc) hreturn

lemma string?_multiLiteral (hplain : ∀ c ∈ cs, needsEscape c = false)
    (hruns : longestRun '\'' 0 cs ≤ 2) (hrest : rest.head? ≠ some '\'') :
    string? (['\'', '\'', '\''] ++ ((if cs.contains '\n' then ['\n'] else []) ++
      (cs ++ (['\'', '\'', '\''] ++ rest)))) = some (cs, rest) := by
  have hbody := multiLiteralBody_append (n := 0) hplain hruns hrest
  simp only [List.cons_append, List.nil_append] at hbody ⊢
  rw [string?, dropFirstBreak_lead]
  · exact hbody
  · intro hbreak
    cases cs with
    | nil => rfl
    | cons c cs =>
      refine afterBreak?_cons ?_ ?_
      · rintro rfl
        simp at hbreak
      · rintro rfl
        cases hplain '\r' (by simp)

/-- A printed string is read back, whatever delimiter follows it. -/
theorem string?_printString (s : String) (hrest : Delimited rest) :
    string? ((printString s).toList ++ rest) = some (s.toList, rest) := by
  have hdouble : rest.head? ≠ some '"' := by cases hrest <;> simp
  have hsingle : rest.head? ≠ some '\'' := by cases hrest <;> simp
  obtain ⟨hliteral, hmulti⟩ := Quoting.of_spec s.toList
  cases hquoting : Quoting.of s.toList with
  | basic => simpa [printString, hquoting] using string?_basic hdouble
  | literal => simpa [printString, hquoting] using string?_literal (hliteral hquoting) hsingle
  | multiBasic => simpa [printString, hquoting] using string?_multiBasic hdouble
  | multiLiteral =>
    obtain ⟨hplain, hruns⟩ := hmulti hquoting
    simpa [printString, hquoting] using string?_multiLiteral hplain hruns hsingle

end SpecLens.Toml
