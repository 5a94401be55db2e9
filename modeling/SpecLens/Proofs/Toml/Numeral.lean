import SpecLens.Proofs.Toml.Quoted

/-!
# Scalars read back

A printed number is tried as a date and as a float before it is read as an integer. It is neither,
because none of the characters that would tell follows its digits.
-/

namespace SpecLens.Toml

open Text (hexDigit? hexValue?)

variable {c : Char} {ds rest : List Char}

lemma moreDigits_append (hds : ∀ c ∈ ds, c.isDigit = true) (hrest : Delimited rest) :
    moreDigits Char.isDigit (ds ++ rest) = some (ds, rest) := by
  induction ds with
  | nil => cases hrest <;> rfl
  | cons d ds ih =>
    obtain ⟨hd, hds⟩ := List.forall_mem_cons.mp hds
    rw [List.cons_append, moreDigits, if_pos hd, ih hds]
    · rfl
    · rintro _ _ rfl
      cases hd

lemma head?_toDigits {n : Nat} (hn : n ≠ 0) : (Nat.toDigits 10 n).head? ≠ some '0' := by
  induction n using Nat.strongRecOn with
  | ind n ih =>
    rcases Nat.lt_or_ge n 10 with hlt | hge
    · rw [Nat.toDigits_of_lt_base hlt]
      interval_cases n <;> simp_all
    · rw [Nat.toDigits_of_base_le (by decide) hge,
        List.head?_append_of_ne_nil _ Nat.toDigits_ne_nil]
      exact ih (n / 10) (by omega) (by omega)

lemma isDigit_toDigits (n : Nat) : ∀ c ∈ Nat.toDigits 10 n, c.isDigit = true :=
  fun _ hc => Nat.isDigit_of_mem_toDigits (by decide) (by decide) hc

lemma exists_toDigits (n : Nat) :
    ∃ d ds, Nat.toDigits 10 n = d :: ds ∧ d.isDigit = true ∧ ∀ c ∈ ds, c.isDigit = true := by
  obtain ⟨d, ds, hdigits⟩ := List.exists_cons_of_ne_nil (Nat.toDigits_ne_nil (b := 10) (n := n))
  exact ⟨d, ds, hdigits, List.forall_mem_cons.mp (hdigits ▸ isDigit_toDigits n)⟩

/-- All digits of a decimal number are read. -/
lemma decimal_append (n : Nat) (hrest : Delimited rest) :
    decimal (Nat.toDigits 10 n ++ rest) = some (Nat.toDigits 10 n, rest) := by
  by_cases hzero : n = 0
  · subst hzero
    rfl
  · obtain ⟨d, ds, hdigits, hd, hds⟩ := exists_toDigits n
    have hhead : d ≠ '0' := by simpa [hdigits] using head?_toDigits hzero
    rw [hdigits, List.cons_append, decimal, digits, if_pos hd, moreDigits_append hds hrest]
    · rfl
    · rintro _ h
      cases h
      exact hhead rfl

lemma hexValue?_digit (hc : c.isDigit = true) : hexValue? 0 [c] = some (c.toNat - '0'.toNat) := by
  have hrange : '0' ≤ c ∧ c ≤ '9' := by
    simpa [Char.isDigit, Char.le_def] using hc
  simp [hexValue?, hexDigit?, hrange]

lemma valueOf_toDigits (n : Nat) : valueOf 10 (Nat.toDigits 10 n) = n := by
  calc valueOf 10 (Nat.toDigits 10 n)
      = Nat.ofDigitChars 10 (Nat.toDigits 10 n) 0 :=
        List.foldl_ext _ _ _ fun m c hc => by rw [hexValue?_digit (isDigit_toDigits n c hc)]; rfl
    _ = n := Nat.ofDigitChars_toDigits (by decide) (by decide)

lemma Delimited.exists_cons (hrest : Delimited rest) :
    ∃ d tail, rest = d :: tail ∧ d.isDigit = false ∧ d ≠ '-' ∧ d ≠ ':' := by
  cases hrest <;> exact ⟨_, _, rfl, by decide, by decide, by decide⟩

/-- A number of a fixed length is read from digits alone, and leaves the others. -/
lemma fixed?_append {n lo hi v : Nat} {tail : List Char} (hrest : Delimited rest)
    (hfixed : fixed? n lo hi (ds ++ rest) = some (v, tail)) : tail = ds.drop n ++ rest := by
  obtain ⟨d, more, rfl, hd, -⟩ := hrest.exists_cons
  simp only [fixed?] at hfixed
  split at hfixed
  · rename_i hnumber
    cases hfixed
    simp only [Bool.and_eq_true, decide_eq_true_eq, List.all_eq_true] at hnumber
    obtain ⟨⟨⟨hlength, hdigits⟩, -⟩, -⟩ := hnumber
    have hshort : n ≤ ds.length := by
      by_contra hlong
      obtain ⟨k, rfl⟩ := Nat.exists_eq_add_of_lt (Nat.not_le.mp hlong)
      have hmem : d ∈ (ds ++ d :: more).take (ds.length + k + 1) := by
        simp [List.take_append, Nat.add_assoc]
      rw [hdigits d hmem] at hd
      cases hd
    exact List.drop_append_of_le_length hshort
  · cases hfixed

lemma after?_eq_none {d : Char} (hds : ∀ c ∈ ds, c.isDigit = true) (hrest : Delimited rest)
    (hd : d = '-' ∨ d = ':') : after? d (ds ++ rest) = none := by
  cases ds with
  | nil =>
    obtain ⟨e, more, rfl, -, hdash, hcolon⟩ := hrest.exists_cons
    refine if_neg ?_
    rintro rfl
    exact hd.elim hdash hcolon
  | cons e ds =>
    have he : e.isDigit = true := hds e List.mem_cons_self
    refine if_neg ?_
    rintro rfl
    rcases hd with rfl | rfl <;> cases he

lemma date?_eq_none (hds : ∀ c ∈ ds, c.isDigit = true) (hrest : Delimited rest) :
    date? (ds ++ rest) = none := by
  have hnext {n lo hi v : Nat} {d : Char} {tail : List Char} (hd : d = '-' ∨ d = ':')
      (hfixed : fixed? n lo hi (ds ++ rest) = some (v, tail)) : after? d tail = none := by
    rw [fixed?_append hrest hfixed]
    exact after?_eq_none (fun c hc => hds c (List.mem_of_mem_drop hc)) hrest hd
  have hday : afterDay? (ds ++ rest) = none := by
    unfold afterDay?
    cases hfixed : fixed? 4 0 9999 (ds ++ rest) with
    | none => rfl
    | some r => simp [hnext (.inl rfl) hfixed]
  have htime : afterTime? (ds ++ rest) = none := by
    unfold afterTime?
    cases hfixed : fixed? 2 0 23 (ds ++ rest) with
    | none => rfl
    | some r => simp [hnext (.inr rfl) hfixed]
  simp [date?, hday, htime]

lemma sign_toDigits (n : Nat) (rest : List Char) :
    sign (Nat.toDigits 10 n ++ rest) = (false, Nat.toDigits 10 n ++ rest) := by
  obtain ⟨d, ds, hdigits, hd, -⟩ := exists_toDigits n
  rw [hdigits, List.cons_append, sign]
  · rintro _ h
    cases h
    cases hd
  · rintro _ h
    cases h
    cases hd

lemma float?_eq_none (n : Nat) (hrest : Delimited rest) :
    float? (Nat.toDigits 10 n ++ rest) = none := by
  have hfraction : fraction rest = none := by cases hrest <;> rfl
  have hexponent : exponent rest = none := by cases hrest <;> rfl
  obtain ⟨d, ds, hdigits, hd, -⟩ := exists_toDigits n
  simp only [float?, sign_toDigits]
  split
  · rename_i h
    rw [hdigits] at h
    obtain ⟨rfl, -⟩ := List.cons.inj h
    cases hd
  · rename_i h
    rw [hdigits] at h
    obtain ⟨rfl, -⟩ := List.cons.inj h
    cases hd
  · simp [decimal_append n hrest, hfraction, hexponent]

/-- A zero at the start of a printed number is all of it. -/
lemma eq_of_toDigits_append {n : Nat} {tail : List Char}
    (h : Nat.toDigits 10 n ++ rest = '0' :: tail) : tail = rest := by
  by_cases hn : n = 0
  · subst hn
    cases h
    rfl
  · obtain ⟨d, ds, hdigits, -⟩ := exists_toDigits n
    have hhead : d ≠ '0' := by simpa [hdigits] using head?_toDigits hn
    rw [hdigits] at h
    exact absurd (List.cons.inj h).1 hhead

lemma integer?_append {n : Nat} (hn : inRange n = true) (hrest : Delimited rest) :
    integer? (Nat.toDigits 10 n ++ rest) = some (.integer n, rest) := by
  have hbase {c : Char} {tail : List Char} (hc : c = 'x' ∨ c = 'o' ∨ c = 'b')
      (h : Nat.toDigits 10 n ++ rest = '0' :: c :: tail) : False := by
    cases eq_of_toDigits_append h
    rcases hc with rfl | rfl | rfl <;> cases hrest
  have hdecimal : integer? (Nat.toDigits 10 n ++ rest) =
      (decimal (Nat.toDigits 10 n ++ rest)).bind fun r => integerOf (valueOf 10 r.1) r.2 := by
    rw [integer?, sign_toDigits]
    · rfl
    · exact fun tail => hbase (.inl rfl)
    · exact fun tail => hbase (.inr (.inl rfl))
    · exact fun tail => hbase (.inr (.inr rfl))
  rw [hdecimal, decimal_append n hrest, Option.bind_some]
  dsimp only
  rw [valueOf_toDigits, integerOf, if_pos hn]

/-- A scalar other than a Boolean is told by its first character. -/
lemma scalar?_cons {cs : List Char} (htrue : c ≠ 't') (hfalse : c ≠ 'f') :
    scalar? (c :: cs) =
      if c = '"' ∨ c = '\'' then
        (string? (c :: cs)).map fun (text, rest) => (.string (String.ofList text), rest)
      else (date? (c :: cs)).or ((float? (c :: cs)).or (integer? (c :: cs))) := by
  rw [scalar?]
  · exact fun _ h _ => htrue h
  · exact fun _ h _ => hfalse h

lemma exists_printString (s : String) :
    ∃ q tail, (printString s).toList = q :: tail ∧ (q = '"' ∨ q = '\'') := by
  simp only [printString, String.toList_ofList]
  cases Quoting.of s.toList with
  | basic => exact ⟨'"', _, rfl, .inl rfl⟩
  | literal => exact ⟨'\'', _, rfl, .inr rfl⟩
  | multiBasic => exact ⟨'"', _, rfl, .inl rfl⟩
  | multiLiteral => exact ⟨'\'', _, rfl, .inr rfl⟩

theorem scalar?_printString (s : String) (hrest : Delimited rest) :
    scalar? ((printString s).toList ++ rest) = some (.string s, rest) := by
  have hread := string?_printString s hrest
  obtain ⟨q, tail, htext, hq⟩ := exists_printString s
  rw [htext, List.cons_append] at hread ⊢
  rw [scalar?_cons (by rintro rfl; simp at hq) (by rintro rfl; simp at hq), if_pos hq, hread]
  simp only [Option.map_some, String.ofList_toList]

theorem scalar?_toString {n : Nat} (hn : inRange n = true) (hrest : Delimited rest) :
    scalar? ((toString n).toList ++ rest) = some (.integer n, rest) := by
  have htext : (toString n).toList = Nat.toDigits 10 n := Nat.toList_repr
  have hdate := date?_eq_none (isDigit_toDigits n) hrest
  have hfloat := float?_eq_none n hrest
  have hinteger := integer?_append hn hrest
  obtain ⟨d, ds, hdigits, hd, -⟩ := exists_toDigits n
  rw [htext]
  rw [hdigits, List.cons_append] at hdate hfloat hinteger ⊢
  rw [scalar?_cons (by rintro rfl; cases hd) (by rintro rfl; cases hd),
    if_neg (by rintro (rfl | rfl) <;> cases hd), hdate, hfloat, hinteger]
  rfl

end SpecLens.Toml
