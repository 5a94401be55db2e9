import SpecLens.Proofs.Kotlin.Literal

/-!
# Escapes and the code units they stand for

Kotlin reads the text between quotes from left to right into code units of UTF-16: `units`. A
`\u` stands for the unit that the four digits behind it name. The reader of literals agrees with
this where each `\u` is followed by the digits of a character, or by four characters that neither
make up a number nor hold an escape. It keeps the code of a surrogate as it is written, takes a
number of fewer digits or with a plus sign for a character, and leaves escapes among the four
characters behind any other `\u` as they are.
-/

namespace SpecLens.Kotlin

open Text

/-- The code units of a character in UTF-16. -/
def utf16 (c : Char) : List Nat :=
  if c.toNat < 0x10000 then [c.toNat]
  else [0xD800 + (c.toNat - 0x10000) / 0x400, 0xDC00 + (c.toNat - 0x10000) % 0x400]

/-- The code unit that the four digits at the start of a text name. -/
def codeUnit? (cs : List Char) : Option Nat :=
  if cs.length < 4 then none else hexValue? 0 (cs.take 4)

/-- The code units that the text between quotes stands for. Where no four digits follow a `\u`, it
stands for itself. -/
def units : List Char → List Nat
  | [] => []
  | '\\' :: 'n' :: cs => 10 :: units cs
  | '\\' :: 't' :: cs => 9 :: units cs
  | '\\' :: 'r' :: cs => 13 :: units cs
  | '\\' :: 'b' :: cs => 8 :: units cs
  | '\\' :: 'u' :: cs =>
    match codeUnit? cs with
    | some n => n :: units (cs.drop 4)
    | none => utf16 '\\' ++ utf16 'u' ++ units cs
  | '\\' :: c :: cs => utf16 c ++ units cs
  | c :: cs => utf16 c ++ units cs
termination_by cs => cs.length
decreasing_by all_goals (simp only [List.length_cons, List.length_drop]; omega)

/-- The next `k` characters of a text are not part of an escape that stands for something else. -/
def Literally : Nat → List Char → Prop
  | 0, _ => True
  | _ + 1, [] => True
  | k + 1, '\\' :: 'u' :: cs => codeUnit? cs = none ∧ Literally k ('u' :: cs)
  | _ + 1, '\\' :: _ :: _ => False
  | k + 1, _ :: cs => Literally k cs

/-- Each `\u` that is met is followed by the four digits of a character, or by four characters that
neither make up a number nor hold an escape. -/
inductive CleanCodes : List Char → Prop where
  | nil : CleanCodes []
  | code {cs : List Char} {n : Nat} (hunit : codeUnit? cs = some n) (hvalid : n.isValidChar)
      (hrest : CleanCodes (cs.drop 4)) : CleanCodes ('\\' :: 'u' :: cs)
  | stray {cs : List Char} (hunit : codeUnit? cs = none) (hnumber : codePoint? (cs.take 4) = none)
      (hplain : Literally 4 cs) (hrest : CleanCodes (cs.drop 4)) : CleanCodes ('\\' :: 'u' :: cs)
  | escape {c : Char} {cs : List Char} (hc : c ≠ 'u') (hrest : CleanCodes cs) :
      CleanCodes ('\\' :: c :: cs)
  | plain {c : Char} {cs : List Char} (hc : c = '\\' → cs = []) (hrest : CleanCodes cs) :
      CleanCodes (c :: cs)

/-- No escape of the text stands for a backslash. -/
structure Unslashed (cs : List Char) : Prop where
  pair : ¬['\\', '\\'] <:+: cs
  code : ∀ rest, '\\' :: 'u' :: rest <:+ cs → codePoint? (rest.take 4) ≠ some '\\'

/-- The text between the quotes of a literal: no quote starts it, and no backslash at its end takes
the closing quote for itself. -/
structure IsBody (body : List Char) : Prop where
  opened : body.head? ≠ some '"'
  closed : (body.reverse.takeWhile (· = '\\')).length % 2 = 0

instance (body : List Char) : Decidable (IsBody body) :=
  decidable_of_iff (body.head? ≠ some '"' ∧ (body.reverse.takeWhile (· = '\\')).length % 2 = 0)
    ⟨fun h => ⟨h.1, h.2⟩, fun h => ⟨h.opened, h.closed⟩⟩

variable {c : Char} {cs body : List Char} {n k : Nat}

lemma utf16_of_lt (h : c.toNat < 0x10000) : utf16 c = [c.toNat] := if_pos h

lemma head?_utf16_append (c : Char) (rest : List Nat) :
    (utf16 c ++ rest).head? = some 92 ↔ c = '\\' := by
  unfold utf16
  rw [← Char.toNat_inj]
  have hslash : '\\'.toNat = 92 := rfl
  split
  · simp [hslash]
  · simp [hslash]
    omega

lemma hexDigit?_lt {v : Nat} (h : hexDigit? c = some v) : v < 16 := by
  have hle (a b : Char) : a ≤ b ↔ a.toNat ≤ b.toNat := by
    rw [Char.le_def, UInt32.le_iff_toNat_le]
    rfl
  simp only [hexDigit?, hle] at h
  have h0 : '0'.toNat = 48 := rfl
  have h9 : '9'.toNat = 57 := rfl
  have ha : 'a'.toNat = 97 := rfl
  have hf : 'f'.toNat = 102 := rfl
  have hA : 'A'.toNat = 65 := rfl
  have hF : 'F'.toNat = 70 := rfl
  grind

lemma hexValue?_cons_eq_some {acc : Nat} (h : hexValue? acc (c :: cs) = some n) :
    ∃ d < 16, hexValue? (16 * acc + d) cs = some n := by
  obtain ⟨d, hd, hrest⟩ := Option.bind_eq_some_iff.mp h
  exact ⟨d, hexDigit?_lt hd, hrest⟩

lemma codeUnit?_lt (h : codeUnit? cs = some n) : n < 0x10000 := by
  unfold codeUnit? at h
  split at h
  · cases h
  · rename_i hlength
    rcases cs with _ | ⟨c₁, _ | ⟨c₂, _ | ⟨c₃, _ | ⟨c₄, rest⟩⟩⟩⟩
    iterate 4 exact absurd (by simp) hlength
    obtain ⟨d₁, hd₁, h⟩ := hexValue?_cons_eq_some h
    obtain ⟨d₂, hd₂, h⟩ := hexValue?_cons_eq_some h
    obtain ⟨d₃, hd₃, h⟩ := hexValue?_cons_eq_some h
    obtain ⟨d₄, hd₄, h⟩ := hexValue?_cons_eq_some h
    have hvalue := Option.some.inj h
    omega

/-- Four digits name the character whose number they write. -/
lemma codePoint?_of_codeUnit? (h : codeUnit? cs = some n) :
    codePoint? (cs.take 4) = if n.isValidChar then some (Char.ofNat n) else none := by
  unfold codeUnit? at h
  split at h
  · cases h
  · obtain ⟨c, digits, hdigits⟩ : ∃ c digits, cs.take 4 = c :: digits := by
      cases cs with
      | nil => contradiction
      | cons c cs => exact ⟨c, cs.take 3, rfl⟩
    rw [hdigits] at h ⊢
    have hplus : dropPlus (c :: digits) = c :: digits := by
      rw [dropPlus]
      rintro rest hrest
      cases hrest
      cases h
    simp [codePoint?, hplus, h]

lemma unescape_code (h : codePoint? (cs.take 4) = some c) :
    unescape ('\\' :: 'u' :: cs) = c :: unescape (cs.drop 4) := by
  rw [unescape, h]

lemma unescape_stray (h : codePoint? (cs.take 4) = none) :
    unescape ('\\' :: 'u' :: cs) = '\\' :: 'u' :: (cs.take 4 ++ unescape (cs.drop 4)) := by
  rw [unescape, h]

lemma unescape_escape_cons (hc : c ≠ 'u') :
    unescape ('\\' :: c :: cs) = escaped c :: unescape cs := by
  rw [unescape]
  exact hc

lemma unescape_plain (hc : c = '\\' → cs = []) : unescape (c :: cs) = c :: unescape cs := by
  rw [unescape] <;> grind

lemma units_code (h : codeUnit? cs = some n) :
    units ('\\' :: 'u' :: cs) = n :: units (cs.drop 4) := by
  rw [units, h]

lemma units_stray (h : codeUnit? cs = none) :
    units ('\\' :: 'u' :: cs) = 92 :: 117 :: units cs := by
  rw [units, h]
  rfl

lemma units_escape_cons (hc : c ≠ 'u') :
    units ('\\' :: c :: cs) = utf16 (escaped c) ++ units cs := by
  unfold escaped
  split
  case h_5 => rw [units] <;> assumption
  all_goals
    rw [units]
    rfl

lemma units_plain (hc : c = '\\' → cs = []) : units (c :: cs) = utf16 c ++ units cs := by
  rw [units] <;> grind

lemma units_u (cs : List Char) : units ('u' :: cs) = 117 :: units cs :=
  units_plain fun h => absurd h (by decide)

lemma eq_nil_of_no_escape (h : ∀ d rest, c = '\\' → cs = d :: rest → False) (hc : c = '\\') :
    cs = [] := by
  cases cs with
  | nil => rfl
  | cons d rest => exact (h d rest hc rfl).elim

lemma Literally.units_eq (h : Literally k cs) :
    units cs = (cs.take k).flatMap utf16 ++ units (cs.drop k) := by
  fun_induction Literally k cs with
  | case1 cs => rfl
  | case2 k => rfl
  | case3 k cs ih =>
    rw [units_stray h.1, ← units_u, ih h.2]
    rfl
  | case4 => exact h.elim
  | case5 k c cs hcode hescape ih =>
    rw [units_plain (eq_nil_of_no_escape hescape), ih h, List.take_succ_cons,
      List.flatMap_cons, List.append_assoc, List.drop_succ_cons]

lemma Unslashed.of_suffix {cs' : List Char} (h : Unslashed cs) (hsuffix : cs' <:+ cs) :
    Unslashed cs' :=
  ⟨fun hpair => h.pair (hpair.trans hsuffix.isInfix), fun rest hrest =>
    h.code rest (hrest.trans hsuffix)⟩

lemma escaped_ne_backslash (hc : c ≠ '\\') : escaped c ≠ '\\' := by
  unfold escaped
  split <;> first | decide | assumption

/-- An escape that is not kept as it is written shows at its first unit. -/
lemma Unslashed.ne_units (h : Unslashed cs) (hnot : ¬Literally k cs) (rest : List Nat) :
    (cs.take k).flatMap utf16 ++ rest ≠ units cs := by
  fun_induction Literally k cs with
  | case1 cs => exact (hnot trivial).elim
  | case2 k => exact (hnot trivial).elim
  | case3 k cs ih =>
    have hsuffix : 'u' :: cs <:+ '\\' :: 'u' :: cs := List.suffix_cons _ _
    cases hunit : codeUnit? cs with
    | none =>
      rw [units_stray hunit, ← units_u]
      intro heq
      exact ih (h.of_suffix hsuffix) (fun hrest => hnot ⟨hunit, hrest⟩) (List.cons.inj heq).2
    | some n =>
      rw [units_code hunit]
      intro heq
      have hn : 92 = n := (List.cons.inj heq).1
      refine h.code cs (List.suffix_refl _) ?_
      rw [codePoint?_of_codeUnit? hunit, ← hn]
      rfl
  | case4 k c cs hc =>
    rw [units_escape_cons (by grind)]
    intro heq
    have hhead := congrArg List.head? heq
    rw [eq_comm] at hhead
    have hslash : escaped c = '\\' := (head?_utf16_append _ _).mp hhead
    refine escaped_ne_backslash ?_ hslash
    rintro rfl
    exact h.pair ⟨[], cs, rfl⟩
  | case5 k c cs hcode hescape ih =>
    rw [units_plain (eq_nil_of_no_escape hescape), List.take_succ_cons,
      List.flatMap_cons, List.append_assoc]
    intro heq
    exact ih (h.of_suffix (List.suffix_cons _ _)) hnot (List.append_cancel_left heq)

/-! ### Texts -/

lemma utf16_ofNat (h : codeUnit? cs = some n) (hvalid : n.isValidChar) :
    utf16 (Char.ofNat n) = [n] := by
  have hn : (Char.ofNat n).toNat = n := by
    rw [Char.ofNat, dif_pos hvalid]
    rfl
  rw [utf16_of_lt (by rw [hn]; exact codeUnit?_lt h), hn]

lemma CleanCodes.unescape_eq (h : CleanCodes cs) : (unescape cs).flatMap utf16 = units cs := by
  induction h with
  | nil => simp [unescape, units]
  | code hunit hvalid _ ih =>
    have hpoint := codePoint?_of_codeUnit? hunit
    rw [if_pos hvalid] at hpoint
    rw [unescape_code hpoint, units_code hunit, List.flatMap_cons, utf16_ofNat hunit hvalid, ih]
    rfl
  | stray hunit hnumber hplain _ ih =>
    rw [unescape_stray hnumber, units_stray hunit, hplain.units_eq, ← ih]
    simp only [List.flatMap_cons, List.flatMap_append]
    rfl
  | escape hc _ ih => rw [unescape_escape_cons hc, units_escape_cons hc, List.flatMap_cons, ih]
  | plain hc _ ih => rw [unescape_plain hc, units_plain hc, List.flatMap_cons, ih]

/-- A number behind a `\u` that reads as meant is one of four digits. -/
lemma Unslashed.code_of_eq {tail : List Nat} (h : Unslashed ('\\' :: 'u' :: cs))
    (hpoint : codePoint? (cs.take 4) = some c)
    (heq : utf16 c ++ tail = units ('\\' :: 'u' :: cs)) :
    ∃ n, codeUnit? cs = some n ∧ n.isValidChar ∧ tail = units (cs.drop 4) := by
  cases hunit : codeUnit? cs with
  | none =>
    rw [units_stray hunit] at heq
    have hc : c = '\\' := (head?_utf16_append _ _).mp (congrArg List.head? heq)
    exact (h.code cs (List.suffix_refl _) (hc ▸ hpoint)).elim
  | some n =>
    have hvalid := codePoint?_of_codeUnit? hunit
    rw [hpoint] at hvalid
    split at hvalid
    · rename_i hn
      obtain rfl := Option.some.inj hvalid
      rw [units_code hunit, utf16_ofNat hunit hn] at heq
      exact ⟨n, rfl, hn, (List.cons.inj heq).2⟩
    · cases hvalid

/-- What is kept behind a `\u` that reads as meant stands for itself. -/
lemma Unslashed.stray_of_eq {tail : List Nat} (h : Unslashed ('\\' :: 'u' :: cs))
    (hpoint : codePoint? (cs.take 4) = none)
    (heq : 92 :: 117 :: ((cs.take 4).flatMap utf16 ++ tail) = units ('\\' :: 'u' :: cs)) :
    codeUnit? cs = none ∧ Literally 4 cs ∧ tail = units (cs.drop 4) := by
  cases hunit : codeUnit? cs with
  | none =>
    rw [units_stray hunit] at heq
    have hrest := (List.cons.inj (List.cons.inj heq).2).2
    have hplain : Literally 4 cs := by
      by_contra hnot
      exact (h.of_suffix ⟨['\\', 'u'], rfl⟩).ne_units hnot _ hrest
    rw [hplain.units_eq] at hrest
    exact ⟨rfl, hplain, List.append_cancel_left hrest⟩
  | some n =>
    rw [units_code hunit] at heq
    have hn : 92 = n := (List.cons.inj heq).1
    have hvalid := codePoint?_of_codeUnit? hunit
    rw [hpoint, ← hn] at hvalid
    cases hvalid

lemma Unslashed.cleanCodes (h : Unslashed cs) (heq : (unescape cs).flatMap utf16 = units cs) :
    CleanCodes cs := by
  fun_induction unescape cs with
  | case1 => exact .nil
  | case2 cs c hpoint ih =>
    obtain ⟨n, hunit, hvalid, hrest⟩ := h.code_of_eq hpoint heq
    exact .code hunit hvalid (ih (h.of_suffix (List.drop_suffix 6 ('\\' :: 'u' :: cs))) hrest)
  | case3 cs hpoint ih =>
    rw [List.flatMap_cons, List.flatMap_cons, List.flatMap_append] at heq
    obtain ⟨hunit, hplain, hrest⟩ := h.stray_of_eq hpoint heq
    exact .stray hunit hpoint hplain
      (ih (h.of_suffix (List.drop_suffix 6 ('\\' :: 'u' :: cs))) hrest)
  | case4 c cs hother ih =>
    have hc : c ≠ 'u' := fun hu => hother hu
    rw [units_escape_cons hc] at heq
    exact .escape hc (ih (h.of_suffix ⟨['\\', c], rfl⟩) (List.append_cancel_left heq))
  | case5 c cs _ hescape ih =>
    have hc := eq_nil_of_no_escape hescape
    rw [units_plain hc] at heq
    exact .plain hc (ih (h.of_suffix (List.suffix_cons _ _)) (List.append_cancel_left heq))

lemma IsBody.quotedBody (h : IsBody body) : quotedBody ('"' :: (body ++ ['"'])) = body := by
  rw [quotedBody_closed, if_neg]
  rintro ⟨⟨init, rfl⟩, htwo⟩
  have heven := h.closed
  rw [List.reverse_append, List.reverse_singleton, List.singleton_append,
    List.takeWhile_cons_of_pos (by simp), List.length_cons] at heven
  cases hinit : init.reverse with
  | nil =>
    rw [hinit] at heven
    simp at heven
  | cons c before =>
    by_cases hc : c = '\\'
    · refine htwo ⟨before.reverse, ?_⟩
      have hback := congrArg List.reverse hinit
      rw [List.reverse_reverse, List.reverse_cons, hc] at hback
      simp [hback]
    · rw [hinit, List.takeWhile_cons_of_neg (by simpa using hc)] at heven
      simp at heven

lemma IsBody.read (h : IsBody body) (entry : Bool) :
    Literal.read ('"' :: (body ++ ['"'])) entry =
      ⟨String.ofList (unescape body), entry || hasEntry body⟩ := by
  have hraw : dropLead? rawQuote ('"' :: (body ++ ['"'])) = none :=
    dropLead?_rawQuote_open (not_two_quotes_closed h.opened)
  rw [Literal.read, hraw]
  simp only [h.quotedBody]

lemma IsBody.read_text (h : IsBody body) (entry : Bool) :
    (Literal.read ('"' :: (body ++ ['"'])) entry).text = String.ofList (unescape body) := by
  rw [h.read]

/-- The text of a literal has the code units that its escapes stand for if each `\u` is followed by
the digits of a character or by four characters that are no number and hold no escape, and where no
escape stands for a backslash it has them in this case only. -/
theorem read_resolves_escapes (h : IsBody body) (entry : Bool) :
    let text := (Literal.read ('"' :: (body ++ ['"'])) entry).text.toList
    (CleanCodes body → text.flatMap utf16 = units body) ∧
      (Unslashed body → text.flatMap utf16 = units body → CleanCodes body) := by
  intro text
  have htext : text = unescape body := by
    simp only [text, h.read_text entry, String.toList_ofList]
  rw [htext]
  exact ⟨CleanCodes.unescape_eq, Unslashed.cleanCodes⟩

/-- A code, a `\u` without one and escapes of a single character. -/
theorem mixed_escapes_resolved :
    let body := "\\u00e9\\uxyz!\\n\\q".toList
    IsBody body ∧ CleanCodes body ∧
      (Literal.read ('"' :: (body ++ ['"'])) false).text.toList.flatMap utf16 = units body ∧
      units body = "é\\uxyz!\nq".toList.flatMap utf16 := by
  intro body
  have hunits : units "\\u00e9\\uxyz!\\n\\q".toList = "é\\uxyz!\nq".toList.flatMap utf16 := by
    decide +kernel
  have hbody : IsBody body := by decide
  have hstray : Literally 4 "xyz!\\n\\q".toList := trivial
  have hclean : CleanCodes body :=
    .code (n := 0xE9) rfl (by decide)
      (.stray rfl rfl hstray (.escape (by decide) (.escape (by decide) .nil)))
  exact ⟨hbody, hclean, (read_resolves_escapes hbody false).1 hclean, hunits⟩

/-- The codes of surrogates are left as they are, a number with a plus sign is taken for a code, and
what would be an escape is kept behind a `\u` without a code. -/
theorem escapes_misread :
    (IsBody "\\uD83D\\uDE00".toList ∧
      (Literal.read "\"\\uD83D\\uDE00\"".toList false).text = "\\uD83D\\uDE00" ∧
      units "\\uD83D\\uDE00".toList ≠ "\\uD83D\\uDE00".toList.flatMap utf16) ∧
    (IsBody "\\u+041".toList ∧ (Literal.read "\"\\u+041\"".toList false).text = "A" ∧
      units "\\u+041".toList ≠ "A".toList.flatMap utf16) ∧
    IsBody "\\u12\\n".toList ∧ (Literal.read "\"\\u12\\n\"".toList false).text = "\\u12\\n" ∧
      units "\\u12\\n".toList ≠ "\\u12\\n".toList.flatMap utf16 := by
  decide +kernel

end SpecLens.Kotlin
