import Mathlib.Tactic.Lemma
import SpecLens.Text.Position

/-!
# Offsets and lines

The byte lengths of the parts that a text is put together from are offsets between two characters,
so the text can be cut there. The bytes of a text break into lines just where its characters do, and
the number of a line leads to the offset behind the line breaks before it. An offset lies on a line
or before it if no more line breaks stand before it than before the line.
-/

namespace SpecLens.Text

/-- A character takes bytes, so an offset behind one is not 0. -/
lemma byteLength_cons_eq_succ (c : Char) (cs : List Char) :
    ∃ n, byteLength (c :: cs) = n + 1 ∧ c.utf8Size ≤ n + 1 ∧
      n + 1 - c.utf8Size = byteLength cs := by
  have hpos := c.utf8Size_pos
  have hcons : byteLength (c :: cs) = c.utf8Size + byteLength cs := rfl
  exact ⟨c.utf8Size - 1 + byteLength cs, by omega, by omega, by omega⟩

lemma dropBytes_append (as bs : List Char) : dropBytes (byteLength as) (as ++ bs) = some bs := by
  induction as with
  | nil => rw [byteLength, List.nil_append, dropBytes]
  | cons a as ih =>
    obtain ⟨n, hlength, hle, hrest⟩ := byteLength_cons_eq_succ a as
    rw [hlength, List.cons_append, dropBytes, if_pos hle, hrest, ih]

lemma takeBytes_append (as bs : List Char) : takeBytes (byteLength as) (as ++ bs) = some as := by
  induction as with
  | nil => rw [byteLength, takeBytes]
  | cons a as ih =>
    obtain ⟨n, hlength, hle, hrest⟩ := byteLength_cons_eq_succ a as
    rw [hlength, List.cons_append, takeBytes, if_pos hle, hrest, ih, Option.map_some]

/-- The part in the middle of a text is a slice of it. -/
theorem slice?_append (before part after : List Char) :
    slice? (before ++ part ++ after) (byteLength before) (byteLength (before ++ part)) =
      some part := by
  have hwidth : byteLength (before ++ part) - byteLength before = byteLength part := by
    rw [byteLength_append]
    omega
  have hle : byteLength before ≤ byteLength (before ++ part) := by
    rw [byteLength_append]
    omega
  rw [slice?, if_pos hle, List.append_assoc, dropBytes_append, Option.bind_some, hwidth,
    takeBytes_append]

/-- The bytes of a text stand for it. -/
lemma ofBytes?_toBytes (cs : List Char) : ofBytes? (toBytes cs) = some (String.ofList cs) := by
  have hbytes : (⟨(toBytes cs).toArray⟩ : ByteArray) = cs.utf8Encode := by
    apply ByteArray.ext
    simp [toBytes, List.utf8Encode]
  rw [ofBytes?, hbytes, String.fromUTF8?, dif_pos ByteArray.isValidUTF8_utf8Encode]
  rfl

lemma lines_ne_nil {bytes : List UInt8} (h : bytes ≠ []) : lines bytes ≠ [] := by
  intro hlines
  apply h
  rw [← flatten_lines bytes, hlines, List.flatten_nil]

lemma lines_append_break (before after : List UInt8) :
    lines (before ++ lineBreak :: after) = lines (before ++ [lineBreak]) ++ lines after := by
  induction before with
  | nil => simp [lines]
  | cons b before ih =>
    rw [List.cons_append, List.cons_append, lines, lines, ih]
    split
    · rfl
    · cases hline : lines (before ++ [lineBreak]) with
      | nil => exact (lines_ne_nil (by simp) hline).elim
      | cons line rest => rfl

lemma length_lines_break (before : List UInt8) :
    (lines (before ++ [lineBreak])).length = before.count lineBreak + 1 := by
  induction before with
  | nil => simp [lines]
  | cons b before ih =>
    rw [List.cons_append, lines, List.count_cons]
    cases hline : lines (before ++ [lineBreak]) with
    | nil => exact (lines_ne_nil (by simp) hline).elim
    | cons line rest =>
      rw [hline] at ih
      by_cases hb : b = lineBreak
      · simp [hb, ← ih]
      · simp [hb, ← ih]

/-- A line starts behind a line break or at the start of the text. -/
lemma lines_append {before : List UInt8} (after : List UInt8)
    (h : before = [] ∨ before.getLast? = some lineBreak) :
    lines (before ++ after) = lines before ++ lines after ∧
      (lines before).length = before.count lineBreak := by
  rcases h with rfl | hlast
  · exact ⟨rfl, rfl⟩
  · obtain ⟨start, rfl⟩ := List.getLast?_eq_some_iff.mp hlast
    rw [List.append_assoc, length_lines_break, List.count_append]
    exact ⟨lines_append_break start after, rfl⟩

lemma offsetOf?_line {before after : List UInt8}
    (h : before = [] ∨ before.getLast? = some lineBreak) (hafter : after ≠ []) :
    offsetOf? (before ++ after) (1 + before.count lineBreak) 1 = some before.length := by
  obtain ⟨hlines, hlength⟩ := lines_append after h
  obtain ⟨row, rest, hrows⟩ := List.exists_cons_of_ne_nil (lines_ne_nil hafter)
  have hrow : (lines before ++ row :: rest)[(lines before).length]? = some row := by simp
  have htake : (lines before ++ row :: rest).take (lines before).length = lines before := by simp
  have hline : 1 + before.count lineBreak - 1 = (lines before).length := by omega
  simp [offsetOf?, hlines, hrows, hline, flatten_lines]

lemma length_lines_le (bytes : List UInt8) :
    (lines bytes).length ≤ bytes.count lineBreak + 1 := by
  induction bytes with
  | nil => exact Nat.zero_le _
  | cons b bytes ih =>
    rw [lines, List.count_cons]
    by_cases hb : b = lineBreak
    · simpa [hb] using ih
    · cases hlines : lines bytes with
      | nil => simp [hb]
      | cons line rest =>
        rw [hlines] at ih
        simpa [hb] using ih

lemma toBytes_append (as bs : List Char) : toBytes (as ++ bs) = toBytes as ++ toBytes bs :=
  List.flatMap_append

lemma length_toBytes (cs : List Char) : (toBytes cs).length = byteLength cs := by
  induction cs with
  | nil => rfl
  | cons c cs ih =>
    rw [toBytes, List.flatMap_cons, List.length_append, String.length_utf8EncodeChar, byteLength]
    exact congrArg _ ih

/-- The byte of a line break stands for a line break, and no other character has it. -/
lemma count_utf8EncodeChar (c : Char) :
    (String.utf8EncodeChar c).count lineBreak = if c = '\n' then 1 else 0 := by
  have hval : c = '\n' ↔ c.val.toNat = 10 := by
    rw [Char.ext_iff, ← UInt32.toNat_inj]
    rfl
  have hbyte : ∀ n : Nat, lineBreak = UInt8.ofNat n ↔ n % 256 = 10 := by
    intro n
    rw [← UInt8.toNat_inj, eq_comm]
    simp [lineBreak]
  simp only [hval]
  by_cases hshort : c.val.toNat ≤ 127
  · rw [String.utf8EncodeChar, if_pos hshort, List.count_singleton, BEq.comm]
    simp only [beq_iff_eq, hbyte, Nat.mod_eq_of_lt (show c.val.toNat < 256 by omega)]
  · rw [if_neg (show ¬c.val.toNat = 10 by omega), List.count_eq_zero]
    -- The bytes of longer codes are at least 128.
    simp only [String.utf8EncodeChar, if_neg hshort]
    by_cases htwo : c.val.toNat ≤ 2047
    · simp only [if_pos htwo, List.mem_cons, List.not_mem_nil, or_false, hbyte]
      omega
    by_cases hthree : c.val.toNat ≤ 65535
    · simp only [if_neg htwo, if_pos hthree, List.mem_cons, List.not_mem_nil, or_false, hbyte]
      omega
    · simp only [if_neg htwo, if_neg hthree, List.mem_cons, List.not_mem_nil, or_false, hbyte]
      omega

lemma count_toBytes (cs : List Char) : (toBytes cs).count lineBreak = cs.count '\n' := by
  induction cs with
  | nil => rfl
  | cons c cs ih =>
    have hcons : toBytes (c :: cs) = String.utf8EncodeChar c ++ toBytes cs := rfl
    rw [hcons, List.count_append, count_utf8EncodeChar, ih, List.count_cons, Nat.add_comm]
    simp only [beq_iff_eq]

lemma getLast?_toBytes {cs : List Char} (h : cs.getLast? = some '\n') :
    (toBytes cs).getLast? = some lineBreak := by
  obtain ⟨before, rfl⟩ := List.getLast?_eq_some_iff.mp h
  have hbreak : toBytes ['\n'] = [lineBreak] := by decide
  rw [toBytes_append, hbreak, List.getLast?_concat]

lemma ends_toBytes {cs : List Char} (h : cs = [] ∨ cs.getLast? = some '\n') :
    toBytes cs = [] ∨ (toBytes cs).getLast? = some lineBreak := by
  rcases h with rfl | hlast
  · exact .inl rfl
  · exact .inr (getLast?_toBytes hlast)

lemma toBytes_ne_nil {cs : List Char} (h : cs ≠ []) : toBytes cs ≠ [] := by
  obtain ⟨c, rest, rfl⟩ := List.exists_cons_of_ne_nil h
  simp [toBytes, String.utf8EncodeChar_ne_nil]

/-- A line that starts in a text has the offset of the characters before it. -/
lemma offsetOf?_toBytes {before after : List Char}
    (h : before = [] ∨ before.getLast? = some '\n') (hafter : after ≠ []) :
    offsetOf? (toBytes (before ++ after)) (1 + before.count '\n') 1 = some (byteLength before) := by
  rw [toBytes_append, ← count_toBytes, offsetOf?_line (ends_toBytes h) (toBytes_ne_nil hafter),
    length_toBytes]

/-- A line of a text, its line break included, with the text before it and the rest behind it. -/
structure LineAt (cs : List Char) (line : Nat) (before row after : List Char) : Prop where
  split : cs = before ++ row ++ after
  starts : before = [] ∨ before.getLast? = some '\n'
  number : line = 1 + before.count '\n'
  filled : row ≠ []
  inner : '\n' ∉ row.dropLast
  ends : row.getLast? = some '\n' ∨ after = []

variable {cs before row after : List Char} {line k offset : Nat}

lemma ne_nil_of_lt_lines (h : k < (lines (toBytes cs)).length) : cs ≠ [] := by
  rintro rfl
  exact absurd h (Nat.not_lt_zero k)

lemma exists_first_line (h : cs ≠ []) : ∃ row after, LineAt cs 1 [] row after := by
  induction cs with
  | nil => exact absurd rfl h
  | cons c cs ih =>
    by_cases hc : c = '\n'
    · subst hc
      exact ⟨['\n'], cs, rfl, .inl rfl, rfl, by simp, by simp, .inl rfl⟩
    · cases cs with
      | nil => exact ⟨[c], [], rfl, .inl rfl, rfl, by simp, by simp, .inr rfl⟩
      | cons d cs =>
        obtain ⟨row, after, hrow⟩ := ih (by simp)
        obtain ⟨e, rest, rfl⟩ := List.exists_cons_of_ne_nil hrow.filled
        refine ⟨c :: e :: rest, after, ?_, .inl rfl, rfl, by simp, ?_, ?_⟩
        · rw [hrow.split]
          rfl
        · rw [List.dropLast_cons_cons, List.mem_cons, not_or]
          exact ⟨Ne.symm hc, hrow.inner⟩
        · rw [List.getLast?_cons_cons]
          exact hrow.ends

lemma LineAt.offsetOf? (h : LineAt cs line before row after) :
    offsetOf? (toBytes cs) line 1 = some (byteLength before) := by
  rw [h.split, h.number, List.append_assoc]
  exact offsetOf?_toBytes h.starts (by simp [h.filled])

lemma LineAt.byteLength_lt (h : LineAt cs line before row after) :
    byteLength before < byteLength (before ++ row) := by
  obtain ⟨c, rest, hrow⟩ := List.exists_cons_of_ne_nil h.filled
  have hpos := c.utf8Size_pos
  rw [hrow, byteLength_append, byteLength]
  omega

lemma LineAt.exists_last (h : LineAt cs line before row after) :
    ∃ init c, row = init ++ [c] ∧ init.count '\n' = 0 := by
  obtain ⟨init, c, rfl⟩ := (List.eq_nil_or_concat row).resolve_left h.filled
  have hinner := h.inner
  rw [List.concat_eq_append, List.dropLast_concat] at hinner
  exact ⟨init, c, List.concat_eq_append, List.count_eq_zero.mpr hinner⟩

lemma LineAt.count_row (h : LineAt cs line before row after) :
    row.count '\n' = if row.getLast? = some '\n' then 1 else 0 := by
  obtain ⟨init, c, rfl, hinit⟩ := h.exists_last
  simp [List.count_append, hinit, List.count_singleton]

/-- The lines behind the first one have the lines before them and the first one. -/
lemma LineAt.below_first {first rest : List Char} (hfirst : LineAt cs 1 [] first rest)
    (hbreak : first.getLast? = some '\n') (h : LineAt rest line before row after) :
    LineAt cs (line + 1) (first ++ before) row after := by
  refine ⟨?_, .inr ?_, ?_, h.filled, h.inner, h.ends⟩
  · rw [hfirst.split, h.split]
    simp
  · rcases h.starts with rfl | hlast
    · rwa [List.append_nil]
    · rw [List.getLast?_append, hlast, Option.some_or]
  · rw [h.number, List.count_append, hfirst.count_row, if_pos hbreak]
    omega

/-- A text has as many lines as its bytes. -/
lemma exists_lineAt (h : k < (lines (toBytes cs)).length) :
    ∃ before row after, LineAt cs (k + 1) before row after := by
  induction k generalizing cs with
  | zero => exact ⟨[], exists_first_line (ne_nil_of_lt_lines h)⟩
  | succ k ih =>
    obtain ⟨first, rest, hfirst⟩ := exists_first_line (ne_nil_of_lt_lines h)
    have hcount := hfirst.count_row
    have hcs : cs = first ++ rest := hfirst.split
    by_cases hbreak : first.getLast? = some '\n'
    · -- The first line ends with its break, and what follows it has the other lines.
      obtain ⟨hlines, hlength⟩ := lines_append (toBytes rest) (.inr (getLast?_toBytes hbreak))
      rw [if_pos hbreak] at hcount
      rw [hcs, toBytes_append, hlines, List.length_append, hlength, count_toBytes, hcount] at h
      obtain ⟨before, row, after, hrow⟩ := ih (show k < (lines (toBytes rest)).length by omega)
      exact ⟨first ++ before, row, after, hfirst.below_first hbreak hrow⟩
    · have hrest : rest = [] := hfirst.ends.resolve_left hbreak
      have hle := length_lines_le (toBytes cs)
      rw [if_neg hbreak] at hcount
      rw [count_toBytes, hcs, hrest, List.append_nil, hcount] at hle
      rw [hcs, hrest, List.append_nil] at h
      omega

lemma exists_lineAt_of_offsetOf? (h : offsetOf? (toBytes cs) line 1 = some offset) :
    ∃ before row after, LineAt cs line before row after ∧ byteLength before = offset := by
  have hline : line ≠ 0 ∧ line - 1 < (lines (toBytes cs)).length := by
    rw [Text.offsetOf?] at h
    split at h
    case isTrue => cases h
    case isFalse hzero =>
      obtain ⟨row, hrow, -⟩ := Option.map_eq_some_iff.mp h
      exact ⟨by simpa using hzero, (List.getElem?_eq_some_iff.mp hrow).1⟩
  obtain ⟨before, row, after, hrow⟩ := exists_lineAt hline.2
  rw [Nat.sub_add_cancel (Nat.pos_of_ne_zero hline.1)] at hrow
  exact ⟨before, row, after, hrow, Option.some.inj (hrow.offsetOf?.symm.trans h)⟩

lemma line_ofOffset_of_le (after : List Char) (h : k ≤ byteLength before) :
    (Position.ofOffset (toBytes (before ++ after)) k).line ≤ 1 + before.count '\n' := by
  have htake : (toBytes (before ++ after)).take k = (toBytes before).take k := by
    rw [toBytes_append, List.take_append_of_le_length (by rwa [length_toBytes])]
  have hcount := (List.take_sublist k (toBytes before)).count_le lineBreak
  rw [count_toBytes] at hcount
  simp only [Position.ofOffset, htake]
  omega

lemma le_line_ofOffset (after : List Char) (h : byteLength before ≤ k) :
    1 + before.count '\n' ≤ (Position.ofOffset (toBytes (before ++ after)) k).line := by
  have hprefix : toBytes before <+: (toBytes (before ++ after)).take k := by
    rw [toBytes_append, List.take_append, List.take_of_length_le (by rwa [length_toBytes])]
    exact List.prefix_append _ _
  have hcount := hprefix.sublist.count_le lineBreak
  rw [count_toBytes] at hcount
  simp only [Position.ofOffset]
  omega

/-- No line break stands before an offset on a line other than those before the line. -/
lemma LineAt.line_le (h : LineAt cs line before row after) (hk : k < byteLength (before ++ row)) :
    (Position.ofOffset (toBytes cs) k).line ≤ line := by
  obtain ⟨init, c, rfl, hinit⟩ := h.exists_last
  rw [h.split, h.number]
  by_cases hc : c = '\n'
  · have hle : k ≤ byteLength (before ++ init) := by
      have hone : byteLength [c] = 1 := by rw [hc]; rfl
      rw [← List.append_assoc, byteLength_append, hone] at hk
      omega
    have hline := line_ofOffset_of_le ([c] ++ after) hle
    rw [List.count_append, hinit, Nat.add_zero] at hline
    simpa using hline
  · have hline := line_ofOffset_of_le after (Nat.le_of_lt hk)
    rw [List.count_append, List.count_append, hinit, List.count_singleton,
      if_neg (by simpa using hc), Nat.add_zero] at hline
    exact hline

/-- What lies behind the line break of a line is further down. -/
lemma LineAt.lt_line (h : LineAt cs line before row after) (hbreak : row.getLast? = some '\n')
    (hk : byteLength (before ++ row) ≤ k) : line < (Position.ofOffset (toBytes cs) k).line := by
  have hline := le_line_ofOffset after hk
  have hpos := List.count_pos_iff.mpr (List.mem_of_getLast? hbreak)
  rw [List.count_append] at hline
  rw [h.split, h.number]
  omega

end SpecLens.Text
