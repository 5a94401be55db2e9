import Mathlib.Data.List.Basic
import Mathlib.Tactic.Lemma
import SpecLens.Run.Request

/-!
# Command lines read back

A shell that reads the line of an invocation finds the variables, the program and its arguments as
they are, and nothing that it would act upon. Parts of a line are read one after the other because
each of them ends outside quotes.
-/

namespace SpecLens

namespace Shell

/-- What a character of a command line is to a shell: a blank between words, a single quote that opens
or closes, or a character of a word, which stands outside quotes, between them or behind a backslash
outside of them. -/
inductive Mark where
  | blank
  | quote
  | bare (c : Char)
  | quoted (c : Char)
  | escaped (c : Char)
deriving DecidableEq, Repr

def isBlank (c : Char) : Bool := c == ' ' || c == '\t'

/-- The characters that a shell acts upon outside quotes. An equals sign is none of them: all it does
is to make a variable of a word in front of the program. -/
def specials : List Char := "|&;<>()$`\\\"' \t\n*?[]#~%!^\x7b\x7d".toList

def isSpecial (c : Char) : Bool := specials.contains c

mutual

/-- The marks of a command line. It must not end between quotes or with a backslash. -/
def scan : List Char → Option (List Mark)
  | [] => some []
  | '\'' :: cs => (scanQuoted cs).map (.quote :: ·)
  | '\\' :: c :: cs => (scan cs).map (.escaped c :: ·)
  | ['\\'] => none
  | c :: cs => (scan cs).map ((if isBlank c then .blank else .bare c) :: ·)

/-- The marks of what follows an opening quote. -/
def scanQuoted : List Char → Option (List Mark)
  | [] => none
  | '\'' :: cs => (scan cs).map (.quote :: ·)
  | c :: cs => (scanQuoted cs).map (.quoted c :: ·)

end

namespace Mark

def char? : Mark → Option Char
  | blank => none
  | quote => none
  | bare c => some c
  | quoted c => some c
  | escaped c => some c

/-- A shell takes the character as it is. Only single quotes are written with a backslash. -/
def isHarmless : Mark → Bool
  | bare c => !isSpecial c
  | escaped c => c == '\''
  | _ => true

end Mark

/-- The words of a command line: what stands between the blanks, an empty word only if it is
quoted. -/
def words (marks : List Mark) : List (List Char) :=
  ((marks.splitOn .blank).filter (!·.isEmpty)).map (·.filterMap Mark.char?)

/-- The marks make up the given text without a blank, and are harmless. -/
structure Spells (marks : List Mark) (cs : List Char) : Prop where
  whole : .blank ∉ marks
  text : marks.filterMap Mark.char? = cs
  harmless : ∀ m ∈ marks, m.isHarmless = true

variable {marks marks' : List Mark} {cs cs' : List Char}

lemma spells_nil : Spells [] [] := ⟨by simp, rfl, by simp⟩

lemma spells_quote : Spells [.quote] [] := ⟨by simp, rfl, by simp [Mark.isHarmless]⟩

lemma Spells.append (h : Spells marks cs) (h' : Spells marks' cs') :
    Spells (marks ++ marks') (cs ++ cs') where
  whole := by simp [h.whole, h'.whole]
  text := by rw [List.filterMap_append, h.text, h'.text]
  harmless m hm := (List.mem_append.mp hm).elim (h.harmless m) (h'.harmless m)

lemma words_append_blank (marks marks' : List Mark) :
    words (marks ++ .blank :: marks') = words marks ++ words marks' := by
  unfold words
  rw [List.splitOn_append_cons_self, List.filter_append, List.map_append]

lemma Spells.words_eq (h : Spells marks cs) (hne : marks ≠ []) : words marks = [cs] := by
  rw [words, List.splitOn_eq_singleton h.whole]
  simp [hne, h.text]

/-- Whatever follows it, the part of a line has the given marks, and what follows is scanned on its
own. -/
def Scans (part : List Char) (marks : List Mark) : Prop :=
  ∀ rest, scan (part ++ rest) = (scan rest).map (marks ++ ·)

variable {part part' : List Char}

lemma scans_nil : Scans [] [] := fun rest => by simp

lemma scans_blank : Scans [' '] [.blank] := fun _ => rfl

lemma Scans.append (h : Scans part marks) (h' : Scans part' marks') :
    Scans (part ++ part') (marks ++ marks') := by
  intro rest
  rw [List.append_assoc, h, h', Option.map_map]
  simp [Function.comp_def]

lemma Scans.scan_eq (h : Scans part marks) : scan part = some marks := by
  simpa [scan] using h []

end Shell

namespace ShellWord

open Shell

lemma not_isSpecial_of_isPlain {c : Char} (h : isPlain c = true) : isSpecial c = false := by
  have hdisjoint : specials.all (!isPlain ·) = true := by decide
  by_contra hspecial
  rw [isSpecial, Bool.not_eq_false, List.contains_iff_mem] at hspecial
  have hnot := List.all_eq_true.mp hdisjoint c hspecial
  simp [h] at hnot

lemma ne_of_isSpecial {c d : Char} (h : isPlain c = true) (hd : isSpecial d = true) : c ≠ d := by
  rintro rfl
  simp [not_isSpecial_of_isPlain h] at hd

lemma scan_plain_cons {c : Char} (h : isPlain c = true) (cs : List Char) :
    scan (c :: cs) = (scan cs).map (.bare c :: ·) := by
  have hquote : c ≠ '\'' := ne_of_isSpecial h (by decide)
  have hbackslash : c ≠ '\\' := ne_of_isSpecial h (by decide)
  have hspace : c ≠ ' ' := ne_of_isSpecial h (by decide)
  have htab : c ≠ '\t' := ne_of_isSpecial h (by decide)
  rw [scan] <;> simp_all [isBlank]

lemma scans_plain {cs : List Char} (h : ∀ c ∈ cs, isPlain c = true) : Scans cs (cs.map .bare) := by
  induction cs with
  | nil => exact scans_nil
  | cons c cs ih =>
    intro rest
    have hrest := ih (fun d hd => h d (List.mem_cons_of_mem c hd)) rest
    rw [List.cons_append, scan_plain_cons (h c List.mem_cons_self), hrest, Option.map_map]
    rfl

lemma spells_plain {cs : List Char} (h : ∀ c ∈ cs, isPlain c = true) :
    Spells (cs.map .bare) cs where
  whole := by simp
  text := by simp [Mark.char?, Function.comp_def]
  harmless m hm := by
    obtain ⟨c, hc, rfl⟩ := List.mem_map.mp hm
    simp [Mark.isHarmless, not_isSpecial_of_isPlain (h c hc)]

def quotedMarks (c : Char) : List Mark :=
  if c = '\'' then [.quote, .escaped '\'', .quote] else [.quoted c]

/-- The marks of a word as it is written. -/
def marks (cs : List Char) : List Mark :=
  if !cs.isEmpty && cs.all isPlain then cs.map .bare
  else .quote :: (cs.flatMap quotedMarks ++ [.quote])

lemma marks_ne_nil (cs : List Char) : marks cs ≠ [] := by
  unfold marks
  split
  case isTrue h => simp_all
  case isFalse => simp

lemma scanQuoted_quotedChar_append (c : Char) (cs : List Char) :
    scanQuoted (quotedChar c ++ cs) = (scanQuoted cs).map (quotedMarks c ++ ·) := by
  unfold quotedChar quotedMarks
  split
  case isTrue => simp [scan, scanQuoted, Function.comp_def]
  case isFalse h =>
    rw [List.singleton_append, scanQuoted]
    · rfl
    · exact h

lemma scanQuoted_flatMap_append (cs rest : List Char) :
    scanQuoted (cs.flatMap quotedChar ++ '\'' :: rest) =
      (scan rest).map fun ms => cs.flatMap quotedMarks ++ .quote :: ms := by
  induction cs with
  | nil => simp [scanQuoted]
  | cons c cs ih =>
    rw [List.flatMap_cons, List.append_assoc, scanQuoted_quotedChar_append, ih, Option.map_map]
    simp [Function.comp_def]

lemma scans_encode (cs : List Char) : Scans (encode cs) (marks cs) := by
  unfold encode marks
  split
  case isTrue h =>
    simp only [Bool.and_eq_true, List.all_eq_true] at h
    exact scans_plain h.2
  case isFalse =>
    intro rest
    rw [List.cons_append, List.append_assoc, scan, List.singleton_append, scanQuoted_flatMap_append,
      Option.map_map]
    simp [Function.comp_def]

lemma spells_quotedMarks (c : Char) : Spells (quotedMarks c) [c] := by
  unfold quotedMarks
  split
  case isTrue h =>
    subst h
    exact ⟨by simp, rfl, by simp [Mark.isHarmless]⟩
  case isFalse => exact ⟨by simp, by simp [Mark.char?], by simp [Mark.isHarmless]⟩

lemma spells_flatMap_quotedMarks (cs : List Char) : Spells (cs.flatMap quotedMarks) cs := by
  induction cs with
  | nil => exact spells_nil
  | cons c cs ih => exact (spells_quotedMarks c).append ih

lemma spells_marks (cs : List Char) : Spells (marks cs) cs := by
  unfold marks
  split
  case isTrue h =>
    simp only [Bool.and_eq_true, List.all_eq_true] at h
    exact spells_plain h.2
  case isFalse =>
    have hquoted := (spells_quote.append (spells_flatMap_quotedMarks cs)).append spells_quote
    simpa using hquoted

/-- A word, the first part of which is written as it is. -/
structure Piece where
  lead : List Char
  value : List Char

namespace Piece

def written (p : Piece) : List Char := p.lead ++ encode p.value

def text (p : Piece) : List Char := p.lead ++ p.value

def marks (p : Piece) : List Mark := p.lead.map .bare ++ ShellWord.marks p.value

variable {p : Piece}

lemma marks_ne_nil (p : Piece) : p.marks ≠ [] := by
  simp [marks, ShellWord.marks_ne_nil]

lemma scans (h : ∀ c ∈ p.lead, isPlain c = true) : Scans p.written p.marks :=
  (scans_plain h).append (scans_encode p.value)

lemma spells (h : ∀ c ∈ p.lead, isPlain c = true) : Spells p.marks p.text :=
  (spells_plain h).append (spells_marks p.value)

end Piece

lemma scan_intercalate {ps : List Piece} (hne : ps ≠ [])
    (h : ∀ p ∈ ps, ∀ c ∈ p.lead, isPlain c = true) :
    ∃ ms, Scans ([' '].intercalate (ps.map Piece.written)) ms ∧ words ms = ps.map Piece.text ∧
      ∀ m ∈ ms, m.isHarmless = true := by
  induction ps with
  | nil => exact absurd rfl hne
  | cons p rest ih =>
    have hp := h p List.mem_cons_self
    have hspells := Piece.spells hp
    have hwords : words p.marks = [p.text] := hspells.words_eq p.marks_ne_nil
    cases rest with
    | nil => exact ⟨p.marks, by simpa using Piece.scans hp, hwords, hspells.harmless⟩
    | cons q rest =>
      obtain ⟨ms, hscans, hrest, hharmless⟩ :=
        ih (by simp) fun r hr => h r (List.mem_cons_of_mem p hr)
      refine ⟨p.marks ++ ([.blank] ++ ms), ?_, ?_, fun m hm => ?_⟩
      · rw [List.map_cons, List.map_cons, List.intercalate_cons_cons, List.append_assoc]
        exact (Piece.scans hp).append (scans_blank.append hscans)
      · rw [List.singleton_append, words_append_blank, hwords, hrest]
        rfl
      · simp only [List.mem_append, List.mem_singleton] at hm
        rcases hm with hm | rfl | hm
        · exact hspells.harmless m hm
        · rfl
        · exact hharmless m hm

end ShellWord

open ShellWord

/-- The words of an invocation. The names of variables are not quoted. -/
def Invocation.pieces (i : Invocation) : List Piece :=
  i.env.map (fun (key, value) => ⟨key.toList ++ ['='], value.toList⟩) ++
    (i.program :: i.args).map fun word => ⟨[], word.toList⟩

lemma Invocation.toList_shellLine (i : Invocation) :
    i.shellLine.toList = [' '].intercalate (i.pieces.map Piece.written) := by
  simp [shellLine, pieces, Piece.written, String.toList_intercalate, Function.comp_def]

lemma Invocation.text_pieces (i : Invocation) : i.pieces.map Piece.text =
    (i.env.map (fun (key, value) => key ++ "=" ++ value) ++ i.program :: i.args).map
      String.toList := by
  simp [pieces, Piece.text, Function.comp_def]

lemma Invocation.pieces_ne_nil (i : Invocation) : i.pieces ≠ [] := by simp [pieces]

lemma plain_of_mem_env {r : RunRequest} {c : RunConfig} {entry : String × String}
    (h : entry ∈ (r.invocation c).env) : ∀ d ∈ entry.1.toList, isPlain d = true := by
  rw [← List.all_eq_true]
  rcases List.mem_cons.mp h with rfl | htest
  · show specFilterVariable.toList.all isPlain = true
    decide
  · obtain ⟨filter, -, rfl⟩ := Option.map_eq_some_iff.mp (Option.mem_toList.mp htest)
    show testFilterVariable.toList.all isPlain = true
    decide

lemma plain_of_mem_pieces {r : RunRequest} {c : RunConfig} {p : Piece}
    (h : p ∈ (r.invocation c).pieces) : ∀ d ∈ p.lead, isPlain d = true := by
  rcases List.mem_append.mp h with henv | hword
  · obtain ⟨entry, hentry, rfl⟩ := List.mem_map.mp henv
    intro d hd
    rcases List.mem_append.mp hd with hd | hd
    · exact plain_of_mem_env hentry d hd
    · rw [List.mem_singleton.mp hd]
      decide
  · obtain ⟨word, -, rfl⟩ := List.mem_map.mp hword
    simp

/-- The line of a request reads as its variables, the program and the arguments, in order and as they
are. Nothing in it has a meaning to a shell but the quotes, and the backslashes before the single
quotes of a word. -/
theorem shellLine_reads_back (r : RunRequest) (c : RunConfig) :
    let i := r.invocation c
    ∃ marks, Shell.scan i.shellLine.toList = some marks ∧
      Shell.words marks = (i.env.map (fun (key, value) => key ++ "=" ++ value) ++
        i.program :: i.args).map String.toList ∧
      (∀ d, .bare d ∈ marks → Shell.isSpecial d = false) ∧ ∀ d, .escaped d ∈ marks → d = '\'' := by
  intro i
  obtain ⟨marks, hscans, hwords, hharmless⟩ :=
    scan_intercalate i.pieces_ne_nil fun p hp => plain_of_mem_pieces hp
  refine ⟨marks, ?_, hwords.trans i.text_pieces, fun d hd => ?_, fun d hd => ?_⟩
  · rw [i.toList_shellLine]
    exact hscans.scan_eq
  · simpa [Shell.Mark.isHarmless] using hharmless _ hd
  · simpa [Shell.Mark.isHarmless] using hharmless _ hd

example : ((RunRequest.mk .run none "S" [⟨"it's", false⟩] 1).invocation .standard).shellLine =
    "kotest_filter_specs=S kotest_filter_tests='it'\\''s' ./gradlew test --tests S" := by
  decide +kernel

end SpecLens
