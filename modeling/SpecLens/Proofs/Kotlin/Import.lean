import SpecLens.Kotlin.Header
import SpecLens.Proofs.Text.Blank

/-!
# Import directives read back

A directive is written as its keyword, a dotted path, what ends it and semicolons, with blanks
between these. It reads as what it was written for if spaces are next to the word `as` and no blanks
are between the semicolons behind it, and else it does not: the reader looks for the word between
two spaces and takes the blanks out of what is left.
-/

namespace SpecLens.Kotlin

open Text

/-- The characters of plain identifiers, among others: all but blanks and what has a meaning of its
own in a directive. -/
def isNameChar (c : Char) : Bool :=
  !isBlank c && c != '.' && c != ';' && c != '*'

/-- An identifier without backticks. The keyword `as` is none. -/
structure Identifier where
  chars : List Char
  nonempty : chars ≠ []
  plain : ∀ c ∈ chars, isNameChar c = true
  notAs : chars ≠ "as".toList

/-- A run of blanks. -/
structure Blanks where
  chars : List Char
  blank : ∀ c ∈ chars, isBlank c = true

/-- A run of blanks that keeps two words apart. -/
structure Gap extends Blanks where
  nonempty : chars ≠ []

/-- A dot with the blanks around it and the identifier that follows. -/
structure Step where
  before : Blanks
  after : Blanks
  name : Identifier

def Step.text (s : Step) : List Char := s.before.chars ++ '.' :: (s.after.chars ++ s.name.chars)

/-- Identifiers with dots between them. -/
structure Dotted where
  first : Identifier
  more : List Step

namespace Dotted

def text (d : Dotted) : List Char := d.first.chars ++ d.more.flatMap Step.text

/-- The path that is written, without the blanks. -/
def path (d : Dotted) : List Char := ['.'].intercalate (d.first.chars :: d.more.map (·.name.chars))

end Dotted

/-- What follows the path of a directive: nothing, a star behind a dot, or the word `as` and an
identifier. -/
inductive Ending where
  | plain
  | star (before after : Blanks)
  | named (before after : Gap) (name : Identifier)

namespace Ending

def text : Ending → List Char
  | plain => []
  | star before after => before.chars ++ '.' :: after.chars ++ ['*']
  | named before after name => before.chars ++ "as".toList ++ after.chars ++ name.chars

def asName : Ending → Option String
  | named _ _ name => some (String.ofList name.chars)
  | _ => none

def wildcard : Ending → Bool
  | star .. => true
  | _ => false

/-- Spaces, and not other blanks, are next to the word `as`. -/
def Spaced : Ending → Prop
  | named before after _ => before.chars.getLast? = some ' ' ∧ after.chars.head? = some ' '
  | _ => True

end Ending

/-- An import directive as it is written. -/
structure Directive where
  gap : Gap
  path : Dotted
  ending : Ending
  tail : List Char
  tail_loose : ∀ c ∈ tail, isBlank c = true ∨ c = ';'

/-- Blanks, semicolons and blanks. -/
def Closed (tail : List Char) : Prop :=
  ∃ before semicolons after, tail = before ++ semicolons ++ after ∧
    (∀ c ∈ before, isBlank c = true) ∧ (∀ c ∈ semicolons, c = ';') ∧ ∀ c ∈ after, isBlank c = true

/-- What is left of the end of a directive when it is trimmed, of its semicolons, too. -/
def leftover (tail : List Char) : List Char :=
  dropWhileEnd isBlank (dropWhileEnd (· == ';') (dropWhileEnd isBlank tail))

namespace Directive

/-- What is written between the keyword and the end, without the blanks around it. -/
def core (d : Directive) : List Char := d.path.text ++ d.ending.text

def text (d : Directive) : List Char := "import".toList ++ d.gap.chars ++ d.core ++ d.tail

/-- What the directive is written for. -/
def value (d : Directive) : Import :=
  ⟨String.ofList d.path.path, d.ending.asName, d.ending.wildcard⟩

end Directive

variable {c : Char} {cs rest tail : List Char}

lemma isBlank_of_isNameChar (h : isNameChar c = true) : isBlank c = false := by
  simp only [isNameChar, Bool.and_eq_true, Bool.not_eq_true'] at h
  exact h.1.1.1

lemma ne_of_isNameChar (h : isNameChar c = true) : c ≠ '.' ∧ c ≠ ';' ∧ c ≠ '*' := by
  simp only [isNameChar, Bool.and_eq_true, bne_iff_ne] at h
  exact ⟨h.1.1.2, h.1.2, h.2⟩

lemma isNameChar_of_isBlank (h : isBlank c = true) : isNameChar c = false := by
  simp [isNameChar, h]

lemma Blanks.not_mem (b : Blanks) (h : isBlank c = false) : c ∉ b.chars := fun hc => by
  simp [b.blank c hc] at h

lemma Identifier.not_mem (n : Identifier) (h : isNameChar c = false) : c ∉ n.chars := fun hc => by
  simp [n.plain c hc] at h

lemma leftover_subset : leftover tail ⊆ tail := by
  intro c hc
  have hsub (p : Char → Bool) (cs : List Char) : dropWhileEnd p cs ⊆ cs := by
    obtain ⟨rest, hrest, -⟩ := exists_dropWhileEnd p cs
    intro c hc
    rw [hrest]
    exact List.mem_append_left _ hc
  exact hsub _ _ (hsub _ _ (hsub _ _ hc))

/-- What is left ends in a semicolon. -/
lemma getLast?_leftover (h : ∀ c ∈ tail, isBlank c = true ∨ c = ';') :
    ∀ c ∈ (leftover tail).getLast?, c = ';' := by
  intro c hc
  have hblank : isBlank c = false := getLast?_dropWhileEnd _ _ c hc
  rcases h c (leftover_subset (List.mem_of_getLast? hc)) with hc | hc
  · simp [hblank] at hc
  · exact hc

lemma leftover_eq_nil_iff : leftover tail = [] ↔ Closed tail := by
  constructor
  · intro h
    obtain ⟨after, htail, hafter⟩ := exists_dropWhileEnd isBlank tail
    obtain ⟨semicolons, hinner, hsemicolons⟩ :=
      exists_dropWhileEnd (· == ';') (dropWhileEnd isBlank tail)
    obtain ⟨before, hbefore, hblank⟩ :=
      exists_dropWhileEnd isBlank (dropWhileEnd (· == ';') (dropWhileEnd isBlank tail))
    rw [show dropWhileEnd isBlank _ = [] from h, List.nil_append] at hbefore
    rw [hbefore] at hinner
    rw [hinner] at htail
    exact ⟨before, semicolons, after, htail, hblank, fun c hc => by simpa using hsemicolons c hc,
      hafter⟩
  · rintro ⟨before, semicolons, after, rfl, hbefore, hsemicolons, hafter⟩
    rw [leftover, dropWhileEnd_append_of_all hafter]
    by_cases hnil : semicolons = []
    · rw [hnil, List.append_nil, dropWhileEnd_of_all hbefore]
      rfl
    · have hlast : ∀ c ∈ (before ++ semicolons).getLast?, isBlank c = false := fun c hc => by
        rw [getLast?_append_of_ne_nil _ hnil] at hc
        rw [hsemicolons c (List.mem_of_getLast? hc)]
        decide
      have hall : ∀ c ∈ semicolons, (c == ';') = true := fun c hc => by simp [hsemicolons c hc]
      rw [dropWhileEnd_of_getLast? hlast, dropWhileEnd_append_of_all hall]
      obtain ⟨rest, hrest, -⟩ := exists_dropWhileEnd (· == ';') before
      exact dropWhileEnd_of_all fun c hc => hbefore c (hrest ▸ List.mem_append_left _ hc)

/-- The last character is neither blank nor a semicolon. -/
def Ends (cs : List Char) : Prop := ∀ c ∈ cs.getLast?, isBlank c = false ∧ c ≠ ';'

lemma Identifier.ends (n : Identifier) (cs : List Char) : Ends (cs ++ n.chars) := by
  intro c hc
  rw [getLast?_append_of_ne_nil cs n.nonempty] at hc
  have hplain := n.plain c (List.mem_of_getLast? hc)
  exact ⟨isBlank_of_isNameChar hplain, (ne_of_isNameChar hplain).2.1⟩

lemma Dotted.ends (d : Dotted) : Ends d.text := by
  rcases List.eq_nil_or_concat d.more with hmore | ⟨more, s, hmore⟩
  · rw [text, hmore, List.flatMap_nil, List.append_nil]
    exact d.first.ends []
  · have htext : d.text =
        d.first.chars ++ more.flatMap Step.text ++ s.before.chars ++ '.' :: s.after.chars
          ++ s.name.chars := by
      simp [text, hmore, Step.text]
    rw [htext]
    exact s.name.ends _

/-! ### Where a directive is cut -/

/-- No identifier goes on in a text. -/
def Stops (rest : List Char) : Prop := ∀ c ∈ rest.head?, isNameChar c = false

/-- An identifier is not the word `as`. -/
lemma Identifier.not_as (n : Identifier) (hrest : Stops rest) :
    ¬"as ".toList <+: n.chars ++ rest := by
  rintro ⟨after, hafter⟩
  have hname : (n.chars ++ rest).takeWhile isNameChar = n.chars := by
    rw [List.takeWhile_append_of_pos n.plain]
    cases rest with
    | nil => simp
    | cons c rest => rw [List.takeWhile_cons_of_neg (by simp [hrest c rfl]), List.append_nil]
  rw [← hafter] at hname
  exact n.notAs hname.symm

/-- The separator before the name that a directive gives to its import. -/
def asWord : List Char := " as ".toList

lemma Identifier.skips (n : Identifier) (rest : List Char) : Skips asWord n.chars rest :=
  skips_of_not_mem (n.not_mem (by decide)) rest

/-- In a text without the letter the separator only starts with the space at the end. -/
lemma skips_of_letter_not_mem (h : 'a' ∉ cs)
    (hlast : cs.getLast? = some ' ' → ¬"as ".toList <+: rest) : Skips asWord cs rest :=
  skips_of_second_not_mem h hlast

lemma Blanks.skips (b : Blanks) (h : b.chars.getLast? = some ' ' → ¬"as ".toList <+: rest) :
    Skips asWord b.chars rest :=
  skips_of_letter_not_mem (b.not_mem (by decide)) h

lemma dot_skips (rest : List Char) : Skips asWord ['.'] rest :=
  skips_of_not_mem (by decide) rest

lemma Step.skips (s : Step) (hrest : Stops rest) : Skips asWord s.text rest := by
  have hname := s.name.skips rest
  have hafter : Skips asWord s.after.chars (s.name.chars ++ rest) :=
    s.after.skips fun _ => s.name.not_as hrest
  have hbefore : Skips asWord s.before.chars ('.' :: (s.after.chars ++ s.name.chars ++ rest)) :=
    s.before.skips fun _ => by simp
  have hdot := (dot_skips _).append (hafter.append hname)
  exact hbefore.append hdot

lemma Step.stops (s : Step) (rest : List Char) : Stops (s.text ++ rest) := by
  intro c hc
  cases hbefore : s.before.chars with
  | nil =>
    simp only [Step.text, hbefore, List.nil_append, List.cons_append, List.head?_cons,
      Option.mem_def, Option.some.injEq] at hc
    subst hc
    decide
  | cons d before =>
    simp only [Step.text, hbefore, List.cons_append, List.head?_cons, Option.mem_def,
      Option.some.injEq] at hc
    subst hc
    exact isNameChar_of_isBlank (s.before.blank d (by simp [hbefore]))

lemma Dotted.skips (d : Dotted) (hrest : Stops rest) : Skips asWord d.text rest := by
  refine (d.first.skips _).append ?_
  induction d.more with
  | nil => exact skips_nil _ _
  | cons s more ih =>
    rw [List.flatMap_cons]
    refine (s.skips ?_).append ih
    cases more with
    | nil => exact hrest
    | cons s' more =>
      rw [List.flatMap_cons, List.append_assoc]
      exact s'.stops _

lemma leftover_skips (h : ∀ c ∈ tail, isBlank c = true ∨ c = ';') :
    Skips asWord (leftover tail) [] := by
  refine skips_of_letter_not_mem (fun ha => ?_) (by simp)
  rcases h 'a' (leftover_subset ha) with hblank | hsemicolon
  · exact absurd hblank (by decide)
  · exact absurd hsemicolon (by decide)

lemma stops_leftover (h : ∀ c ∈ tail, isBlank c = true ∨ c = ';') : Stops (leftover tail) := by
  intro c hc
  rcases h c (leftover_subset (List.mem_of_mem_head? hc)) with hblank | rfl
  · exact isNameChar_of_isBlank hblank
  · decide

lemma Ending.stops (e : Ending) (hrest : Stops rest) : Stops (e.text ++ rest) := by
  intro c hc
  have hblank (b : Blanks) (h : c ∈ b.chars.head?) : isNameChar c = false :=
    isNameChar_of_isBlank (b.blank c (List.mem_of_mem_head? h))
  cases e with
  | plain => exact hrest c hc
  | star before after =>
    rw [text, List.append_assoc, List.append_assoc, List.head?_append] at hc
    cases hbefore : before.chars.head? with
    | some d => exact hblank before (by simpa [hbefore] using hc)
    | none =>
      rw [hbefore] at hc
      obtain rfl : '.' = c := by simpa using hc
      decide
  | named before after name =>
    rw [text, List.append_assoc, List.append_assoc, List.append_assoc, List.head?_append] at hc
    cases hbefore : before.chars.head? with
    | some d => exact hblank before.toBlanks (by simpa [hbefore] using hc)
    | none => exact absurd (List.head?_eq_none_iff.mp hbefore) before.nonempty

/-- Where spaces are missing next to the word `as`, it does not separate. -/
lemma Ending.skips (e : Ending) (hcut : e.asName = none ∨ ¬e.Spaced) (hrest : Stops rest)
    (hskips : Skips asWord rest []) : Skips asWord (e.text ++ rest) [] := by
  rw [← List.append_nil rest] at hrest
  refine Skips.append ?_ hskips
  cases e with
  | plain => exact skips_nil _ _
  | star before after =>
    have hbefore : 'a' ∉ before.chars := before.not_mem (by decide)
    have hafter : 'a' ∉ after.chars := after.not_mem (by decide)
    have hlast : (Ending.text (star before after)).getLast? = some '*' := List.getLast?_concat
    exact skips_of_letter_not_mem (by simp [text, hbefore, hafter]) (by simp [hlast])
  | named before after name =>
    have hspaced : ¬(before.chars.getLast? = some ' ' ∧ after.chars.head? = some ' ') := by
      simpa [asName, Spaced] using hcut
    have hafter : Skips asWord after.chars (name.chars ++ (rest ++ [])) :=
      after.skips fun _ => name.not_as hrest
    have hword : Skips asWord "as".toList (after.chars ++ (name.chars ++ (rest ++ []))) :=
      skips_of_not_mem (by decide) _
    have hbefore : Skips asWord before.chars
        ("as".toList ++ (after.chars ++ (name.chars ++ (rest ++ [])))) := by
      refine before.skips fun hlast hword => hspaced ⟨hlast, ?_⟩
      obtain ⟨more, hmore⟩ := hword
      cases h : after.chars with
      | nil => exact absurd h after.nonempty
      | cons c blanks =>
        rw [h] at hmore
        obtain ⟨rfl, -⟩ : ' ' = c ∧ more = blanks ++ (name.chars ++ rest) := by simpa using hmore
        rfl
    rw [text]
    exact ((hbefore.append hword).append hafter).append (name.skips _)

/-! ### The path of a directive -/

lemma Identifier.squeeze_chars (n : Identifier) : squeeze n.chars = n.chars :=
  squeeze_of_not_blank fun c hc => isBlank_of_isNameChar (n.plain c hc)

lemma Blanks.squeeze_chars (b : Blanks) : squeeze b.chars = [] := squeeze_of_blank b.blank

lemma Step.squeeze_text (s : Step) : squeeze s.text = '.' :: s.name.chars := by
  have hdot (cs : List Char) : squeeze ('.' :: cs) = '.' :: squeeze cs := rfl
  rw [text, squeeze_append, hdot, squeeze_append, s.before.squeeze_chars, s.after.squeeze_chars,
    s.name.squeeze_chars, List.nil_append, List.nil_append]

lemma Dotted.path_eq (d : Dotted) :
    d.path = d.first.chars ++ d.more.flatMap fun s => '.' :: s.name.chars := by
  rw [path]
  generalize d.first.chars = first
  induction d.more generalizing first with
  | nil => simp
  | cons s more ih =>
    rw [List.map_cons, List.intercalate_cons_cons, ih, List.flatMap_cons]
    simp

lemma Dotted.squeeze_text (d : Dotted) : squeeze d.text = d.path := by
  rw [text, squeeze_append, d.first.squeeze_chars, path_eq]
  congr 1
  induction d.more with
  | nil => rfl
  | cons s more ih => rw [List.flatMap_cons, squeeze_append, s.squeeze_text, ih, List.flatMap_cons]

lemma Dotted.path_ne_nil (d : Dotted) : d.path ≠ [] := by
  simp [path_eq, d.first.nonempty]

lemma Dotted.star_not_mem (d : Dotted) : '*' ∉ d.path := by
  simp only [path_eq, List.mem_append, List.mem_flatMap, List.mem_cons, not_or, not_exists, not_and]
  exact ⟨d.first.not_mem (by decide), fun s _ => ⟨by decide, s.name.not_mem (by decide)⟩⟩

/-- A path without a star is read from its own text, and with the wildcard from none but the text
with `.*` behind it. -/
lemma readPath_eq_iff {path : List Char} {wildcard : Bool} (hstar : '*' ∉ path) :
    Import.readPath cs = (path, wildcard) ↔
      squeeze cs = path ++ if wildcard then ['.', '*'] else [] := by
  rw [Import.readPath]
  cases htail : dropTail? ['.', '*'] (squeeze cs) with
  | some read =>
    rw [dropTail?_eq_some_iff] at htail
    cases wildcard with
    | true => simp [htail]
    | false =>
      suffices read ++ ['.', '*'] ≠ path by simpa [htail] using this
      rintro rfl
      simp at hstar
  | none =>
    cases wildcard with
    | false => simp
    | true =>
      suffices squeeze cs ≠ path ++ ['.', '*'] by simpa using this
      intro hcs
      rw [dropTail?_eq_some_iff.mpr hcs] at htail
      cases htail

/-- An import is built of what stands before and behind the word `as`, or of all of the body. -/
def Import.built? (written : List Char) (asName : Option String) : Option Import :=
  let (path, wildcard) := readPath written
  if path.isEmpty then none else some ⟨String.ofList path, asName, wildcard⟩

lemma Import.read?_eq (cs : List Char) : Import.read? cs =
    (dropLead? "import".toList (trim cs)).bind fun rest =>
      match cutAt? asWord (trim (dropWhileEnd (· == ';') (trim rest))) with
      | some (written, name) => Import.built? (trim written) (some (String.ofList (trim name)))
      | none => Import.built? (trim (dropWhileEnd (· == ';') (trim rest))) none := by
  unfold Import.read?
  congr 1
  funext rest
  dsimp only
  rw [show " as ".toList = asWord from rfl]
  cases cutAt? asWord (trim (dropWhileEnd (· == ';') (trim rest))) <;> rfl

lemma Identifier.head_append (n : Identifier) (rest : List Char) :
    ∀ c ∈ (n.chars ++ rest).head?, isBlank c = false := by
  cases hchars : n.chars with
  | nil => exact absurd hchars n.nonempty
  | cons d more =>
    intro c hc
    obtain rfl : d = c := by simpa using hc
    exact isBlank_of_isNameChar (n.plain d (by simp [hchars]))

lemma Identifier.trim_append (n : Identifier) (h : ∀ c ∈ rest.getLast?, isBlank c = false) :
    trim (n.chars ++ rest) = n.chars ++ rest := by
  have hlast : ∀ c ∈ n.chars.getLast?, isBlank c = false := fun c hc =>
    isBlank_of_isNameChar (n.plain c (List.mem_of_getLast? hc))
  rw [trim_of_head (n.head_append rest), dropWhileEnd_append hlast, dropWhileEnd_of_getLast? h]

namespace Ending

variable {e : Ending}

lemma squeeze_text (h : e.asName = none) :
    squeeze e.text = if e.wildcard then ['.', '*'] else [] := by
  cases e with
  | plain => rfl
  | star before after =>
    have hdot : squeeze ('.' :: after.chars) = '.' :: squeeze after.chars := rfl
    have hstar : squeeze ['*'] = ['*'] := rfl
    rw [text, squeeze_append, squeeze_append, before.squeeze_chars, hdot, after.squeeze_chars,
      hstar]
    simp [wildcard]
  | named => cases h

lemma spaced_of_asName (h : e.asName = none) : e.Spaced := by
  cases e with
  | named => cases h
  | _ => trivial

lemma exists_named (h : e.asName ≠ none) : ∃ before after name, e = .named before after name := by
  cases e with
  | named before after name => exact ⟨before, after, name, rfl⟩
  | _ => exact absurd rfl h

end Ending

namespace Directive

variable (d : Directive)

lemma stops_ending : Stops (d.ending.text ++ leftover d.tail) :=
  d.ending.stops (stops_leftover d.tail_loose)

/-- What is read after the keyword: no separator is in it before the end of its path. -/
def body : List Char := d.core ++ leftover d.tail

lemma path_skips : Skips asWord d.path.text (d.ending.text ++ leftover d.tail) :=
  d.path.skips d.stops_ending

lemma cutAt?_eq_none (h : Skips asWord (d.ending.text ++ leftover d.tail) []) :
    cutAt? asWord d.body = none := by
  have hpath := d.path_skips
  rw [← List.append_nil (d.ending.text ++ _)] at hpath
  rw [body, core, List.append_assoc]
  exact (hpath.append h).cutAt?_eq_none (by decide)

/-! ### Reading a directive -/

lemma core_ends : Ends d.core := by
  rw [core]
  cases d.ending with
  | plain =>
    rw [Ending.text, List.append_nil]
    exact d.path.ends
  | star before after =>
    intro c hc
    rw [Ending.text, ← List.append_assoc, List.getLast?_concat] at hc
    obtain rfl : '*' = c := by simpa using hc
    decide
  | named before after name =>
    rw [Ending.text, ← List.append_assoc]
    exact name.ends _

lemma core_ne_nil : d.core ≠ [] := by
  simp [core, Dotted.text, d.path.first.nonempty]

lemma trim_core_append (rest : List Char) :
    trim (d.core ++ rest) = d.core ++ dropWhileEnd isBlank rest := by
  have hhead : ∀ c ∈ (d.core ++ rest).head?, isBlank c = false := by
    rw [core, Dotted.text, List.append_assoc, List.append_assoc]
    exact d.path.first.head_append _
  rw [trim_of_head hhead, dropWhileEnd_append fun c hc => (d.core_ends c hc).1]

lemma trim_text :
    trim d.text = "import".toList ++ (d.gap.chars ++ d.core ++ dropWhileEnd isBlank d.tail) := by
  have htext : d.text = "import".toList ++ (d.gap.chars ++ d.core) ++ d.tail := by
    unfold text
    rw [List.append_assoc "import".toList]
  have hhead : ∀ c ∈ d.text.head?, isBlank c = false := by
    have hword : "import".toList.head? = some 'i' := by decide
    rw [htext, List.append_assoc, List.head?_append, hword]
    intro c hc
    obtain rfl : 'i' = c := by simpa using hc
    decide
  have hlast : ∀ c ∈ ("import".toList ++ (d.gap.chars ++ d.core)).getLast?, isBlank c = false := by
    rw [← List.append_assoc, getLast?_append_of_ne_nil _ d.core_ne_nil]
    exact fun c hc => (d.core_ends c hc).1
  rw [trim_of_head hhead, htext, dropWhileEnd_append hlast, List.append_assoc]

/-- The steps of reading lead from what follows the keyword to the body. -/
lemma trim_dropWhileEnd_trim :
    trim (dropWhileEnd (· == ';') (trim (d.gap.chars ++ d.core ++ dropWhileEnd isBlank d.tail))) =
      d.body := by
  have hlast : ∀ c ∈ d.core.getLast?, (c == ';') = false := fun c hc => by
    simp [(d.core_ends c hc).2]
  rw [List.append_assoc, trim_append_of_blank d.gap.blank, trim_core_append,
    dropWhileEnd_dropWhileEnd, dropWhileEnd_append hlast, trim_core_append, body, leftover]

/-- What is built is what the directive is written for if its parts are. -/
lemma built?_eq_value_iff {written : List Char} {asName : Option String} :
    Import.built? written asName = some d.value ↔
      squeeze written = d.path.path ++ (if d.ending.wildcard then ['.', '*'] else []) ∧
        asName = d.ending.asName := by
  rw [← readPath_eq_iff d.path.star_not_mem, Import.built?]
  cases hread : Import.readPath written with
  | mk read star =>
    by_cases hnil : read = []
    · simp [hnil, d.path.path_ne_nil.symm]
    · simp [hnil, value, String.ofList_inj, and_left_comm, and_comm]

lemma read?_text : Import.read? d.text =
    match cutAt? asWord d.body with
    | some (written, name) => Import.built? (trim written) (some (String.ofList (trim name)))
    | none => Import.built? d.body none := by
  rw [Import.read?_eq, dropLead?_eq_some_iff.mpr d.trim_text, Option.bind_some,
    trim_dropWhileEnd_trim]

lemma squeeze_body :
    squeeze d.body = d.path.path ++ squeeze d.ending.text ++ squeeze (leftover d.tail) := by
  rw [body, core, squeeze_append, squeeze_append, d.path.squeeze_text]

lemma squeeze_leftover_eq_nil_iff : squeeze (leftover d.tail) = [] ↔ leftover d.tail = [] := by
  refine ⟨fun h => ?_, fun h => by rw [h]; rfl⟩
  by_contra hne
  obtain ⟨c, hc⟩ := Option.ne_none_iff_exists'.mp (mt List.getLast?_eq_none_iff.mp hne)
  obtain rfl := getLast?_leftover d.tail_loose c hc
  rw [squeeze, List.filter_eq_nil_iff] at h
  exact h ';' (List.mem_of_getLast? hc) (by decide)

/-- Spaces next to the word `as` let it separate path and name. -/
lemma cutAt?_of_spaced {before after : Gap} {name : Identifier}
    (hending : d.ending = .named before after name) (hspaced : d.ending.Spaced) :
    ∃ pre post : Blanks, cutAt? asWord d.body =
      some (d.path.text ++ pre.chars, post.chars ++ (name.chars ++ leftover d.tail)) := by
  rw [hending] at hspaced
  obtain ⟨pre, hpre⟩ := List.getLast?_eq_some_iff.mp hspaced.1
  obtain ⟨post, hpost⟩ := List.head?_eq_some_iff.mp hspaced.2
  let pre : Blanks := ⟨pre, fun c hc => before.blank c (by simp [hpre, hc])⟩
  let post : Blanks := ⟨post, fun c hc => after.blank c (by simp [hpost, hc])⟩
  have hrest : d.ending.text ++ leftover d.tail =
      pre.chars ++ (asWord ++ (post.chars ++ (name.chars ++ leftover d.tail))) := by
    simp [hending, Ending.text, hpre, hpost, pre, post, asWord]
  have hbody : d.body = d.path.text ++ pre.chars ++
      (asWord ++ (post.chars ++ (name.chars ++ leftover d.tail))) := by
    rw [body, core, List.append_assoc, hrest, List.append_assoc]
  have hpath := d.path_skips
  rw [hrest] at hpath
  have hword (cs : List Char) : ¬"as ".toList <+: asWord ++ cs := by simp [asWord]
  have hskips := hpath.append (pre.skips fun _ => hword _)
  refine ⟨pre, post, ?_⟩
  rw [hbody, hskips, cutAt?_append _ _ (by decide), Option.map_some]
  simp only [List.append_nil]

/-- A directive reads as what it was written for if and only if spaces are next to its `as` and its
semicolons follow one another. -/
theorem read_text_iff : Import.read? d.text = some d.value ↔ d.ending.Spaced ∧ Closed d.tail := by
  have hleft := d.squeeze_leftover_eq_nil_iff
  have hcut_none (hcut : d.ending.asName = none ∨ ¬d.ending.Spaced) :
      Import.read? d.text = Import.built? d.body none := by
    have hskips := d.ending.skips hcut (stops_leftover d.tail_loose) (leftover_skips d.tail_loose)
    rw [read?_text, d.cutAt?_eq_none hskips]
  rw [← leftover_eq_nil_iff]
  by_cases hname : d.ending.asName = none
  · rw [hcut_none (.inl hname), built?_eq_value_iff, squeeze_body, Ending.squeeze_text hname]
    simp [hname, Ending.spaced_of_asName hname, hleft]
  by_cases hspaced : d.ending.Spaced
  · obtain ⟨before, after, name, hending⟩ := Ending.exists_named hname
    obtain ⟨pre, post, hcut⟩ := d.cutAt?_of_spaced hending hspaced
    have hpath : squeeze (trim (d.path.text ++ pre.chars)) = d.path.path := by
      rw [squeeze_trim, squeeze_append, d.path.squeeze_text, pre.squeeze_chars, List.append_nil]
    have hnamed : trim (post.chars ++ (name.chars ++ leftover d.tail)) =
        name.chars ++ leftover d.tail := by
      rw [trim_append_of_blank post.blank]
      exact name.trim_append (getLast?_dropWhileEnd _ _)
    rw [read?_text, hcut]
    change Import.built? (trim _) (some (String.ofList (trim _))) = some d.value ↔ _
    rw [built?_eq_value_iff, hpath, hnamed]
    simp only [hspaced, true_and]
    simp [hending, Ending.wildcard, Ending.asName]
  · rw [hcut_none (.inr hspaced), built?_eq_value_iff]
    simp [hspaced, Ne.symm hname]

/-- A tab before the word `as` makes it and the alias part of the path, and a semicolon behind a
blank leaves another in it. -/
theorem tabbed_alias_misread :
    (∃ d : Directive, d.text = "import a.B\tas C".toList ∧ d.value = ⟨"a.B", some "C", false⟩ ∧
      Import.read? d.text = some ⟨"a.BasC", none, false⟩) ∧
    ∃ d : Directive, d.text = "import a.B; ;".toList ∧ d.value = ⟨"a.B", none, false⟩ ∧
      Import.read? d.text = some ⟨"a.B;", none, false⟩ := by
  let space : Gap := ⟨⟨[' '], by simp [isBlank]⟩, by decide⟩
  let tab : Gap := ⟨⟨['\t'], by simp [isBlank]⟩, by decide⟩
  let noBlanks : Blanks := ⟨[], by simp⟩
  let path : Dotted := ⟨⟨['a'], by decide, by simp [isNameChar, isBlank], by decide⟩,
    [⟨noBlanks, noBlanks, ⟨['B'], by decide, by simp [isNameChar, isBlank], by decide⟩⟩]⟩
  let name : Identifier := ⟨['C'], by decide, by simp [isNameChar, isBlank], by decide⟩
  exact ⟨⟨⟨space, path, .named tab space name, [], by simp⟩, by decide, by decide, by decide⟩,
    ⟨⟨space, path, .plain, [';', ' ', ';'], by simp [isBlank]⟩, by decide, by decide, by decide⟩⟩

end Directive

end SpecLens.Kotlin
