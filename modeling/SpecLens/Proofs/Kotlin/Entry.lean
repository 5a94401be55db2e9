import SpecLens.Proofs.Kotlin.Escape
import SpecLens.Proofs.Text.Blank

/-!
# Where template entries start

In Kotlin a `$` before a brace, a letter or an underscore starts a template entry. Between quotes a
backslash before it takes the `$` for itself unless another one takes that backslash, so what counts
is whether the backslashes that end before the `$` are even in number. A raw text knows no escapes,
and each such `$` starts an entry there.

The reader of literals finds exactly these entries between quotes. It reads a raw text by the same
rule and looks for a `$` before a brace besides, so in raw texts it overlooks the entries of plain
names behind an odd number of backslashes.
-/

namespace SpecLens.Kotlin

open Text

/-- Behind `before` a text goes on with a `$` and a character that makes an entry of it. -/
structure EntryAt (cs before : List Char) (c : Char) : Prop where
  dollar : before ++ ['$', c] <+: cs
  starts : c = '\x7b' ∨ ('a' ≤ c ∧ c ≤ 'z') ∨ ('A' ≤ c ∧ c ≤ 'Z') ∨ c = '_'

/-- How many backslashes a text ends with. -/
def slashes (cs : List Char) : Nat := (cs.reverse.takeWhile (· = '\\')).length

variable {c d : Char} {cs before body : List Char}

@[simp] lemma slashes_append_slash (cs : List Char) : slashes (cs ++ ['\\']) = slashes cs + 1 := by
  simp [slashes]

lemma slashes_append_of_ne (cs : List Char) (h : d ≠ '\\') : slashes (cs ++ [d]) = 0 := by
  simp [slashes, h]

lemma startsEntry_iff : startsEntry c = true ↔
    c = '\x7b' ∨ ('a' ≤ c ∧ c ≤ 'z') ∨ ('A' ≤ c ∧ c ≤ 'Z') ∨ c = '_' := by
  simp only [startsEntry, Bool.or_eq_true, Bool.and_eq_true, decide_eq_true_eq, beq_iff_eq,
    or_assoc]

lemma not_entryAt_nil : ¬EntryAt [] before c := by
  intro h
  have hnil := List.prefix_nil.mp h.dollar
  simp at hnil

/-- An entry starts with a text or behind its first character. -/
lemma exists_entryAt_cons {P : List Char → Char → Prop} :
    (∃ before c, EntryAt (d :: cs) before c ∧ P before c) ↔
      (d = '$' ∧ ∃ c ∈ cs.head?, startsEntry c = true ∧ P [] c) ∨
        ∃ before c, EntryAt cs before c ∧ P (d :: before) c := by
  constructor
  · rintro ⟨before, c, ⟨hdollar, hstarts⟩, hP⟩
    cases before with
    | nil =>
      obtain ⟨hd, hc⟩ := List.cons_prefix_cons.mp hdollar
      have hhead : c ∈ cs.head? := by
        obtain ⟨rest, rfl⟩ := hc
        rfl
      exact .inl ⟨hd.symm, c, hhead, startsEntry_iff.mpr hstarts, hP⟩
    | cons b before =>
      obtain ⟨rfl, hrest⟩ := List.cons_prefix_cons.mp hdollar
      exact .inr ⟨before, c, ⟨hrest, hstarts⟩, hP⟩
  · rintro (⟨rfl, c, hc, hstarts, hP⟩ | ⟨before, c, hentry, hP⟩)
    · obtain ⟨rest, rfl⟩ := List.head?_eq_some_iff.mp hc
      exact ⟨[], c, ⟨⟨rest, rfl⟩, startsEntry_iff.mp hstarts⟩, hP⟩
    · exact ⟨d :: before, c, ⟨List.cons_prefix_cons.mpr ⟨rfl, hentry.dollar⟩, hentry.starts⟩, hP⟩

/-- The search finds the entries behind an even number of backslashes, those at the end of the text
already read counted in. -/
lemma hasEntryFrom_iff (read cs : List Char) :
    hasEntryFrom (slashes read % 2 = 0) cs = true ↔
      ∃ before c, EntryAt cs before c ∧ slashes (read ++ before) % 2 = 0 := by
  induction cs generalizing read with
  | nil => simp [hasEntryFrom, not_entryAt_nil]
  | cons d cs ih =>
    have hstep := ih (read ++ [d])
    simp only [List.append_assoc, List.singleton_append] at hstep
    rw [exists_entryAt_cons, ← hstep]
    by_cases hslash : d = '\\'
    · subst hslash
      have hodd : decide ((slashes read + 1) % 2 = 0) = !decide (slashes read % 2 = 0) := by
        rw [← decide_not, decide_eq_decide]
        omega
      simp [hasEntryFrom, hodd]
    · have heven : decide (slashes (read ++ [d]) % 2 = 0) = true := by
        rw [slashes_append_of_ne _ hslash]
        rfl
      rw [heven, List.append_nil]
      by_cases hdollar : d = '$'
      · subst hdollar
        cases cs <;> simp [hasEntryFrom, and_comm]
      · simp [hasEntryFrom, hdollar]

lemma hasEntry_iff (cs : List Char) :
    hasEntry cs = true ↔ ∃ before c, EntryAt cs before c ∧ slashes before % 2 = 0 :=
  hasEntryFrom_iff [] cs

lemma containsText_brace_iff (cs : List Char) :
    containsText ['$', '\x7b'] cs = true ↔ ∃ before, EntryAt cs before '\x7b' := by
  constructor
  · intro h
    obtain ⟨⟨before, after⟩, hcut⟩ := Option.isSome_iff_exists.mp h
    exact ⟨before, ⟨after, (eq_of_cutAt?_eq_some hcut).symm⟩, .inl rfl⟩
  · rintro ⟨before, ⟨after, rfl⟩, -⟩
    exact containsText_append before _ after

lemma read_raw (text : List Char) :
    Literal.read (rawQuote ++ text ++ rawQuote) false =
      ⟨String.ofList text, containsText ['$', '\x7b'] text || hasEntry text⟩ := by
  have hopen : dropLead? rawQuote (rawQuote ++ text ++ rawQuote) = some (text ++ rawQuote) :=
    dropLead?_eq_some_iff.mpr (List.append_assoc _ _ _)
  have hclose : dropTail? rawQuote (text ++ rawQuote) = some text := dropTail?_eq_some_iff.mpr rfl
  rw [Literal.read, hopen]
  simp only [hclose, Option.getD_some, Bool.false_or]

/-- A quoted text is taken as interpolated if an entry in it has an even number of backslashes
before its `$`. So is a raw one, and also if an entry in it starts with a brace, but not because of
entries of names behind an odd number of backslashes. -/
theorem read_interpolated_iff (text : List Char) {body : List Char} (h : IsBody body) :
    ((Literal.read (rawQuote ++ text ++ rawQuote) false).interpolated = true ↔
      ∃ before c, EntryAt text before c ∧ (c = '\x7b' ∨ slashes before % 2 = 0)) ∧
    ((Literal.read ('"' :: (body ++ ['"'])) false).interpolated = true ↔
      ∃ before c, EntryAt body before c ∧ slashes before % 2 = 0) := by
  constructor
  · rw [read_raw, Bool.or_eq_true, containsText_brace_iff, hasEntry_iff]
    constructor
    · rintro (⟨before, hentry⟩ | ⟨before, c, hentry, heven⟩)
      · exact ⟨before, '\x7b', hentry, .inl rfl⟩
      · exact ⟨before, c, hentry, .inr heven⟩
    · rintro ⟨before, c, hentry, rfl | heven⟩
      · exact .inl ⟨before, hentry⟩
      · exact .inr ⟨before, c, hentry, heven⟩
  · rw [h.read, Bool.false_or, hasEntry_iff]

/-- Behind one backslash a name is no entry between quotes, and behind two it is one. -/
theorem backslashed_names_told_apart :
    let plain := "\\$name".toList
    let entry := "\\\\$name".toList
    IsBody plain ∧ (Literal.read ('"' :: (plain ++ ['"'])) false).interpolated = false ∧
      IsBody entry ∧ (Literal.read ('"' :: (entry ++ ['"'])) false).interpolated = true := by
  intro plain entry
  have hplain : IsBody plain := by decide
  have hentry : IsBody entry := by decide
  refine ⟨hplain, ?_, hentry, ?_⟩
  · decide +kernel
  · exact (read_interpolated_iff [] hentry).2.mpr
      ⟨['\\', '\\'], 'n', ⟨⟨"ame".toList, rfl⟩, by decide⟩, rfl⟩

/-- A backslash in a raw text hides the entry of the name behind it. -/
theorem raw_entry_overlooked :
    let text := "\\$name".toList
    ¬rawQuote <:+: text ∧ EntryAt text ['\\'] 'n' ∧
      Literal.read (rawQuote ++ text ++ rawQuote) false = ⟨"\\$name", false⟩ := by
  refine ⟨by decide, ⟨⟨"ame".toList, rfl⟩, by decide⟩, ?_⟩
  decide +kernel

end SpecLens.Kotlin
