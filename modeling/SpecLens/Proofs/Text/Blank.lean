import Mathlib.Data.List.TakeWhile
import Mathlib.Tactic.Lemma
import SpecLens.Text.Split

/-!
# Trimmed texts

What is dropped at the ends of a text, and where a text is cut at a separator.
-/

namespace SpecLens.Text

variable {α : Type} {p : α → Bool} {xs ys : List α} {cs rest sep : List Char}

lemma getLast?_append_of_ne_nil (xs : List α) (h : ys ≠ []) :
    (xs ++ ys).getLast? = ys.getLast? := by
  rw [List.getLast?_append, List.getLast?_eq_some_getLast h, Option.some_or]

lemma dropWhileEnd_of_getLast? (h : ∀ x ∈ xs.getLast?, p x = false) : dropWhileEnd p xs = xs := by
  cases hrev : xs.reverse with
  | nil => simp [dropWhileEnd, List.reverse_eq_nil_iff.mp hrev]
  | cons x before =>
    have hlast : xs.getLast? = some x := by rw [← List.head?_reverse, hrev, List.head?_cons]
    rw [dropWhileEnd, hrev, List.dropWhile_cons_of_neg (by simp [h x hlast]), ← hrev,
      List.reverse_reverse]

lemma dropWhileEnd_append (h : ∀ x ∈ xs.getLast?, p x = false) (ys : List α) :
    dropWhileEnd p (xs ++ ys) = xs ++ dropWhileEnd p ys := by
  have hxs : xs.reverse.dropWhile p = xs.reverse := by
    rw [← List.reverse_inj, List.reverse_reverse]
    exact dropWhileEnd_of_getLast? h
  rw [dropWhileEnd, List.reverse_append, List.dropWhile_append, hxs, dropWhileEnd]
  split
  case isTrue hnil => simp [List.isEmpty_iff.mp hnil]
  case isFalse => simp

lemma dropWhileEnd_append_of_all (h : ∀ y ∈ ys, p y = true) (xs : List α) :
    dropWhileEnd p (xs ++ ys) = dropWhileEnd p xs := by
  rw [dropWhileEnd, List.reverse_append, List.dropWhile_append_of_pos (by simpa using h),
    dropWhileEnd]

lemma dropWhileEnd_of_all (h : ∀ x ∈ xs, p x = true) : dropWhileEnd p xs = [] :=
  dropWhileEnd_append_of_all h []

lemma exists_dropWhileEnd (p : α → Bool) (xs : List α) :
    ∃ rest, xs = dropWhileEnd p xs ++ rest ∧ ∀ x ∈ rest, p x = true := by
  refine ⟨(xs.reverse.takeWhile p).reverse, ?_, fun x hx => ?_⟩
  · rw [dropWhileEnd, ← List.reverse_append, List.takeWhile_append_dropWhile, List.reverse_reverse]
  · exact List.mem_takeWhile_imp (List.mem_reverse.mp hx)

lemma getLast?_dropWhileEnd (p : α → Bool) (xs : List α) :
    ∀ x ∈ (dropWhileEnd p xs).getLast?, p x = false := by
  intro x hx
  rw [dropWhileEnd, List.getLast?_reverse] at hx
  exact Bool.eq_false_iff.mpr fun htrue => by
    have := List.head?_dropWhile_not p xs.reverse
    simp_all

lemma dropWhileEnd_dropWhileEnd (p : α → Bool) (xs : List α) :
    dropWhileEnd p (dropWhileEnd p xs) = dropWhileEnd p xs :=
  dropWhileEnd_of_getLast? (getLast?_dropWhileEnd p xs)

lemma trim_append_of_blank (h : ∀ c ∈ cs, isBlank c = true) (rest : List Char) :
    trim (cs ++ rest) = trim rest := by
  rw [trim, List.dropWhile_append_of_pos h, trim]

lemma trim_of_head (h : ∀ c ∈ cs.head?, isBlank c = false) : trim cs = dropWhileEnd isBlank cs := by
  cases cs with
  | nil => rfl
  | cons c cs => rw [trim, List.dropWhile_cons_of_neg (by simp [h c rfl])]

lemma squeeze_append (cs cs' : List Char) : squeeze (cs ++ cs') = squeeze cs ++ squeeze cs' :=
  List.filter_append ..

lemma squeeze_of_blank (h : ∀ c ∈ cs, isBlank c = true) : squeeze cs = [] := by
  simpa [squeeze, List.filter_eq_nil_iff] using h

lemma squeeze_of_not_blank (h : ∀ c ∈ cs, isBlank c = false) : squeeze cs = cs := by
  simpa [squeeze, List.filter_eq_self] using h

lemma squeeze_dropWhileEnd (cs : List Char) : squeeze (dropWhileEnd isBlank cs) = squeeze cs := by
  obtain ⟨rest, hrest, hblank⟩ := exists_dropWhileEnd isBlank cs
  calc squeeze (dropWhileEnd isBlank cs)
      = squeeze (dropWhileEnd isBlank cs ++ rest) := by
        rw [squeeze_append, squeeze_of_blank hblank, List.append_nil]
    _ = squeeze cs := by rw [← hrest]

lemma squeeze_trim (cs : List Char) : squeeze (trim cs) = squeeze cs := by
  have hlead : squeeze (cs.takeWhile isBlank) = [] :=
    squeeze_of_blank fun c hc => List.mem_takeWhile_imp hc
  calc squeeze (trim cs)
      = squeeze (cs.takeWhile isBlank) ++ squeeze (cs.dropWhile isBlank) := by
        rw [trim, squeeze_dropWhileEnd, hlead, List.nil_append]
    _ = squeeze cs := by rw [← squeeze_append, List.takeWhile_append_dropWhile]

/-- No occurrence of a separator starts in a text when the given one follows it. -/
def Skips (sep cs rest : List Char) : Prop :=
  cutAt? sep (cs ++ rest) = (cutAt? sep rest).map fun (before, after) => (cs ++ before, after)

lemma skips_nil (sep rest : List Char) : Skips sep [] rest := by
  simp [Skips]

lemma Skips.cons {c : Char} (h : Skips sep cs rest) (hc : ¬sep <+: c :: (cs ++ rest)) :
    Skips sep (c :: cs) rest := by
  have hc : sep.isPrefixOf (c :: (cs ++ rest)) = false := by
    rw [← Bool.not_eq_true, List.isPrefixOf_iff_prefix]
    exact hc
  rw [Skips, List.cons_append, cutAt?, hc, if_neg Bool.false_ne_true, h, Option.map_map]
  rfl

lemma Skips.append {cs' : List Char} (h : Skips sep cs (cs' ++ rest)) (h' : Skips sep cs' rest) :
    Skips sep (cs ++ cs') rest := by
  rw [Skips, List.append_assoc, h, h', Option.map_map]
  simp [Function.comp_def]

lemma skips_of_not_mem {c : Char} {sep : List Char} (h : c ∉ cs) (rest : List Char) :
    Skips (c :: sep) cs rest := by
  induction cs with
  | nil => exact skips_nil _ _
  | cons d cs ih =>
    rw [List.mem_cons, not_or] at h
    refine (ih h.2).cons fun hprefix => h.1 ?_
    exact (List.cons_prefix_cons.mp hprefix).1

/-- A separator that goes on with a character that is not in a text starts at its end if at all. -/
lemma skips_of_second_not_mem {c d : Char} {sep : List Char} (h : d ∉ cs)
    (hend : cs.getLast? = some c → ¬d :: sep <+: rest) : Skips (c :: d :: sep) cs rest := by
  induction cs with
  | nil => exact skips_nil _ _
  | cons e cs ih =>
    rw [List.mem_cons, not_or] at h
    cases cs with
    | nil =>
      refine (skips_nil _ _).cons fun hprefix => ?_
      obtain ⟨rfl, hrest⟩ := List.cons_prefix_cons.mp hprefix
      exact hend rfl hrest
    | cons f cs =>
      refine (ih h.2 (by simpa using hend)).cons fun hprefix => h.2 ?_
      obtain ⟨-, hrest⟩ := List.cons_prefix_cons.mp hprefix
      exact (List.cons_prefix_cons.mp hrest).1 ▸ List.mem_cons_self

lemma eq_of_cutAt?_eq_some {before after : List Char} (h : cutAt? sep cs = some (before, after)) :
    cs = before ++ sep ++ after := by
  induction cs generalizing before with
  | nil =>
    rw [cutAt?] at h
    split at h
    case isTrue hnil =>
      cases h
      rw [List.isEmpty_iff.mp hnil]
      rfl
    case isFalse => cases h
  | cons c cs ih =>
    rw [cutAt?] at h
    split at h
    case isTrue hprefix =>
      cases h
      obtain ⟨rest, hrest⟩ := List.isPrefixOf_iff_prefix.mp hprefix
      rw [← hrest, List.drop_left, List.nil_append]
    case isFalse =>
      obtain ⟨⟨before', after'⟩, hcut, heq⟩ := Option.map_eq_some_iff.mp h
      cases heq
      rw [ih hcut, List.cons_append, List.cons_append]

lemma cutAt?_append (sep rest : List Char) (hsep : sep ≠ []) :
    cutAt? sep (sep ++ rest) = some ([], rest) := by
  cases sep with
  | nil => exact absurd rfl hsep
  | cons c sep => simp [cutAt?]

lemma cutAt?_nil (hsep : sep ≠ []) : cutAt? sep [] = none := by
  simp [cutAt?, hsep]

lemma Skips.cutAt?_eq_none (h : Skips sep cs []) (hsep : sep ≠ []) : cutAt? sep cs = none := by
  rw [Skips, List.append_nil, cutAt?_nil hsep] at h
  exact h

lemma containsText_append (before part after : List Char) :
    containsText part (before ++ part ++ after) = true := by
  induction before with
  | nil =>
    cases part with
    | nil => cases after <;> simp [containsText, cutAt?]
    | cons c part => simp [containsText, cutAt?]
  | cons c before ih =>
    rw [List.cons_append, List.cons_append, containsText, cutAt?]
    split
    case isTrue => rfl
    case isFalse => simpa [containsText] using ih

end SpecLens.Text
