import SpecLens.Kotlin.Expression
import SpecLens.Kotlin.Header
import SpecLens.Proofs.Kotlin.Import

/-!
# Backticks in headers

The readers of package headers and of import directives drop blanks, semicolons, keywords and a
star, and nothing else: every backtick of a directive is in what is read of it. An identifier of
another place is read without those around it.
-/

namespace SpecLens.Kotlin

open Text

def backtick : Char := '\x60'

def backticks (cs : List Char) : Nat := cs.count backtick

/-- A text with backticks put around some of its parts. -/
inductive Backticked : List Char → List Char → Prop
  | nil : Backticked [] []
  | char (c : Char) {cs cs' : List Char} : Backticked cs cs' → Backticked (c :: cs) (c :: cs')
  | part (name : List Char) {cs cs' : List Char} : Backticked cs cs' →
    Backticked (name ++ cs) (backtick :: name ++ backtick :: cs')

/-- Two texts of one identifier: each is the name, or the name between backticks. -/
def SameName (cs cs' : List Char) : Prop :=
  ∃ name, backtick ∉ name ∧ cs ∈ [name, backtick :: name ++ [backtick]] ∧
    cs' ∈ [name, backtick :: name ++ [backtick]]

variable {cs cs' rest sep : List Char} {i : Import} {name : String}

lemma ne_backtick (h : backtick ∉ cs) : ∀ c ∈ cs, (c == '\x60') = false := fun c hc => by
  rw [beq_eq_false_iff_ne]
  rintro rfl
  exact h hc

lemma unquoted_of_name (h : backtick ∉ cs) : unquoted cs = String.ofList cs := by
  have hhead : cs.dropWhile (· == '\x60') = cs := by
    cases cs with
    | nil => rfl
    | cons c cs => rw [List.dropWhile_cons_of_neg (by simp [ne_backtick h c List.mem_cons_self])]
  have hlast : ∀ c ∈ cs.getLast?, (c == '\x60') = false := fun c hc =>
    ne_backtick h c (List.mem_of_getLast? hc)
  rw [unquoted, trimChar, hhead, dropWhileEnd_of_getLast? hlast]

lemma unquoted_between (h : backtick ∉ cs) :
    unquoted (backtick :: cs ++ [backtick]) = String.ofList cs := by
  have hlast : ∀ c ∈ [backtick], (c == '\x60') = true := by simp [backtick]
  rw [unquoted, trimChar, List.cons_append, List.dropWhile_cons_of_pos (by decide)]
  cases cs with
  | nil => decide
  | cons c cs =>
    have hc := ne_backtick h c List.mem_cons_self
    rw [List.cons_append, List.dropWhile_cons_of_neg (by simp [hc]), ← List.cons_append,
      dropWhileEnd_append_of_all hlast,
      dropWhileEnd_of_getLast? fun d hd => ne_backtick h d (List.mem_of_getLast? hd)]

lemma unquoted_eq {name : List Char} (hname : backtick ∉ name)
    (h : cs ∈ [name, backtick :: name ++ [backtick]]) : unquoted cs = String.ofList name := by
  rcases List.mem_cons.mp h with rfl | h
  · exact unquoted_of_name hname
  · rw [List.mem_singleton.mp h, unquoted_between hname]

lemma sameName_iff {cs cs' : List Char} : SameName cs cs' ↔
    backtick ∉ (unquoted cs).toList ∧
      cs ∈ [(unquoted cs).toList, backtick :: (unquoted cs).toList ++ [backtick]] ∧
      cs' ∈ [(unquoted cs).toList, backtick :: (unquoted cs).toList ++ [backtick]] := by
  refine ⟨fun h => ?_, fun h => ⟨_, h⟩⟩
  obtain ⟨name, hname, hcs, hcs'⟩ := h
  rw [unquoted_eq hname hcs, String.toList_ofList]
  exact ⟨hname, hcs, hcs'⟩

instance (cs cs' : List Char) : Decidable (SameName cs cs') := decidable_of_iff _ sameName_iff.symm

lemma SameName.unquoted_eq (h : SameName cs cs') : unquoted cs' = unquoted cs := by
  obtain ⟨name, hname, hcs, hcs'⟩ := h
  rw [Kotlin.unquoted_eq hname hcs, Kotlin.unquoted_eq hname hcs']

lemma SameName.not_mem (h : SameName cs cs') : backtick ∉ (unquoted cs).toList := by
  obtain ⟨name, hname, hcs, -⟩ := h
  rwa [Kotlin.unquoted_eq hname hcs, String.toList_ofList]

lemma Backticked.append_left (before : List Char) {cs cs' : List Char} (h : Backticked cs cs') :
    Backticked (before ++ cs) (before ++ cs') := by
  induction before with
  | nil => exact h
  | cons c before ih => exact .char c ih

lemma Backticked.count_le (h : Backticked cs cs') : backticks cs ≤ backticks cs' := by
  induction h with
  | nil => exact le_rfl
  | char c _ ih =>
    simp only [backticks, List.count_cons] at ih ⊢
    omega
  | part name _ ih =>
    simp only [backticks, List.count_cons, List.count_append, List.cons_append] at ih ⊢
    omega

/-- Where no backtick has come to a text, the text is the same. -/
lemma Backticked.eq_of_count_eq (h : Backticked cs cs') (hcount : backticks cs' = backticks cs) :
    cs' = cs := by
  induction h with
  | nil => rfl
  | char c _ ih =>
    rw [ih]
    simpa [backticks, List.count_cons] using hcount
  | part name h _ =>
    have hle := h.count_le
    simp only [backticks, List.count_cons, List.count_append, List.cons_append, beq_self_eq_true,
      if_true] at hle hcount
    omega

lemma Backticked.mem_of_ne (h : Backticked cs cs') (hne : cs' ≠ cs) : backtick ∈ cs' := by
  rw [← List.one_le_count_iff]
  have hle := h.count_le
  have hcount := mt h.eq_of_count_eq hne
  rw [backticks, backticks] at *
  omega

lemma backticks_append (cs cs' : List Char) :
    backticks (cs ++ cs') = backticks cs + backticks cs' := List.count_append

lemma backticks_eq_zero {p : Char → Bool} (hp : p backtick = false) (h : ∀ c ∈ cs, p c = true) :
    backticks cs = 0 := by
  rw [backticks, List.count_eq_zero]
  intro hmem
  simp [h _ hmem] at hp

lemma backticks_dropWhileEnd {p : Char → Bool} (hp : p backtick = false) (cs : List Char) :
    backticks (dropWhileEnd p cs) = backticks cs := by
  obtain ⟨rest, hrest, hall⟩ := exists_dropWhileEnd p cs
  calc backticks (dropWhileEnd p cs)
      = backticks (dropWhileEnd p cs ++ rest) := by
        rw [backticks_append, backticks_eq_zero hp hall, Nat.add_zero]
    _ = backticks cs := by rw [← hrest]

lemma backticks_trim (cs : List Char) : backticks (trim cs) = backticks cs := by
  have hblank : isBlank backtick = false := by decide
  have hlead : backticks (cs.takeWhile isBlank) = 0 :=
    backticks_eq_zero hblank fun c hc => List.mem_takeWhile_imp hc
  calc backticks (trim cs)
      = backticks (cs.takeWhile isBlank) + backticks (cs.dropWhile isBlank) := by
        rw [trim, backticks_dropWhileEnd hblank, hlead, Nat.zero_add]
    _ = backticks cs := by rw [← backticks_append, List.takeWhile_append_dropWhile]

lemma backticks_squeeze (cs : List Char) : backticks (squeeze cs) = backticks cs := by
  rw [backticks, squeeze, List.count_filter (by decide), backticks]

lemma backticks_dropCopies {word : List Char} (hword : backtick ∉ word) (n : Nat)
    (cs : List Char) : backticks (dropCopies word n cs) = backticks cs := by
  induction n generalizing cs with
  | zero => rfl
  | succ n ih =>
    have hnone : backticks word = 0 := List.count_eq_zero.mpr hword
    rw [dropCopies]
    cases hlead : dropLead? word cs with
    | none => rfl
    | some rest =>
      rw [dropLead?_eq_some_iff.mp hlead, backticks_append, hnone, Nat.zero_add]
      exact ih rest

/-- The backticks of the name that a package header gives, if any. -/
lemma backticks_packageName? (cs : List Char) :
    (packageName? cs).elim 0 (fun name => backticks name.toList) = backticks cs := by
  have hname : backticks (squeeze (dropWhileEnd (· == ';') (trim
      (dropCopies "package".toList cs.length (trim cs))))) = backticks cs := by
    rw [backticks_squeeze, backticks_dropWhileEnd (by decide), backticks_trim,
      backticks_dropCopies (by decide), backticks_trim]
  rw [packageName?]
  split
  case isTrue hnil => rw [← hname, List.isEmpty_iff.mp hnil]; rfl
  case isFalse => rw [Option.elim_some, String.toList_ofList, hname]

lemma backticks_readPath (cs : List Char) : backticks (Import.readPath cs).1 = backticks cs := by
  rw [Import.readPath, ← backticks_squeeze cs]
  cases htail : dropTail? ['.', '*'] (squeeze cs) with
  | none => rfl
  | some path =>
    rw [dropTail?_eq_some_iff.mp htail, backticks_append]
    rfl

lemma backticks_built? {written : List Char} {asName : Option String}
    (h : Import.built? written asName = some i) :
    backticks i.path.toList = backticks written ∧ i.asName = asName := by
  rw [Import.built?] at h
  rw [← backticks_readPath written]
  cases hread : Import.readPath written with
  | mk path wildcard =>
    rw [hread] at h
    obtain ⟨-, h⟩ := Option.ite_none_left_eq_some.mp h
    rw [← Option.some.inj h, String.toList_ofList]
    exact ⟨rfl, rfl⟩

/-- All backticks of an import directive are in its path and in the name it gives. -/
lemma backticks_read? (h : Import.read? cs = some i) :
    backticks i.path.toList + i.asName.elim 0 (fun name => backticks name.toList) =
      backticks cs := by
  rw [Import.read?_eq] at h
  obtain ⟨rest, hrest, h⟩ := Option.bind_eq_some_iff.mp h
  have hkeyword : backticks "import".toList = 0 := by decide
  have hbody : backticks (trim (dropWhileEnd (· == ';') (trim rest))) = backticks cs := by
    rw [backticks_trim, backticks_dropWhileEnd (by decide), backticks_trim, ← backticks_trim cs,
      dropLead?_eq_some_iff.mp hrest, backticks_append, hkeyword, Nat.zero_add]
  cases hcut : cutAt? asWord (trim (dropWhileEnd (· == ';') (trim rest))) with
  | none =>
    rw [hcut] at h
    obtain ⟨hpath, hname⟩ := backticks_built? h
    rw [hpath, hname, hbody, Option.elim_none, Nat.add_zero]
  | some parts =>
    obtain ⟨written, name⟩ := parts
    rw [hcut] at h
    obtain ⟨hpath, hname⟩ := backticks_built? h
    have hword : backticks asWord = 0 := by decide
    rw [hpath, hname, Option.elim_some, String.toList_ofList, backticks_trim, backticks_trim,
      ← hbody, eq_of_cutAt?_eq_some hcut, backticks_append, backticks_append, hword, Nat.add_zero]

end SpecLens.Kotlin
