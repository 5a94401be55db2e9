import Mathlib.Order.Basic
import SpecLens.Proofs.Text.Line
import SpecLens.Tree.Source

/-!
# Positions and offsets

An offset in a text has a position, and the position leads back to it. The other way round a
position leads to the offset of its column, or to the end of its line where the line is shorter.
-/

namespace SpecLens.Text

variable {cs before row after : List Char} {line column k offset : Nat}

/-- A line without its line break. -/
def content (row : List Char) : List Char := row.takeWhile (· ≠ '\n')

lemma not_mem_content (row : List Char) : '\n' ∉ content row := by
  induction row with
  | nil => simp [content]
  | cons c row ih =>
    by_cases hc : c = '\n'
    · simp [content, hc]
    · rw [content, List.takeWhile_cons_of_pos (by simpa using hc), List.mem_cons, not_or]
      exact ⟨Ne.symm hc, ih⟩

lemma content_append {body : List Char} (h : '\n' ∉ body) (rest : List Char) :
    content (body ++ rest) = body ++ content rest := by
  apply List.takeWhile_append_of_pos
  intro c hc
  simpa using fun heq : c = '\n' => h (heq ▸ hc)

/-- A line ends with its break, or without one where the text ends. -/
lemma LineAt.exists_ending (h : LineAt cs line before row after) :
    ∃ ending, row = content row ++ ending ∧ (ending = ['\n'] ∨ ending = [] ∧ after = []) := by
  obtain ⟨init, c, rfl, hinit⟩ := h.exists_last
  rw [content_append (List.count_eq_zero.mp hinit)]
  by_cases hc : c = '\n'
  · exact ⟨['\n'], by simp [content, hc], .inl rfl⟩
  · have hends := h.ends.resolve_left (by simpa using hc)
    exact ⟨[], by simp [content, hc], .inr ⟨rfl, hends⟩⟩

lemma LineAt.byteLength_row_le (h : LineAt cs line before row after) :
    byteLength (content row) ≤ byteLength row ∧
      byteLength row ≤ byteLength (content row) + 1 := by
  obtain ⟨ending, hrow, hending⟩ := h.exists_ending
  have hlength := (congrArg byteLength hrow).trans (byteLength_append _ _)
  have hle : byteLength ending ≤ 1 := by
    rcases hending with rfl | ⟨rfl, -⟩ <;> decide
  omega

lemma lineBreak_not_mem_toBytes {part : List Char} (h : '\n' ∉ part) :
    lineBreak ∉ toBytes part := by
  rw [← List.count_eq_zero, count_toBytes, List.count_eq_zero]
  exact h

lemma lines_concat_break {body : List UInt8} (h : lineBreak ∉ body) :
    lines (body ++ [lineBreak]) = [body ++ [lineBreak]] := by
  induction body with
  | nil => simp [lines]
  | cons b body ih =>
    rw [List.mem_cons, not_or] at h
    rw [List.cons_append, lines, if_neg (Ne.symm h.1), ih h.2]

lemma lines_of_not_mem {body : List UInt8} (h : lineBreak ∉ body) (hfilled : body ≠ []) :
    lines body = [body] := by
  induction body with
  | nil => exact absurd rfl hfilled
  | cons b body ih =>
    rw [List.mem_cons, not_or] at h
    rw [lines, if_neg (Ne.symm h.1)]
    by_cases hempty : body = []
    · simp [hempty, lines]
    · rw [ih h.2 hempty]

/-- The bytes of a text break into lines before a line, the line and those behind it. -/
lemma LineAt.lines_eq (h : LineAt cs line before row after) :
    lines (toBytes cs) = lines (toBytes before) ++ toBytes row :: lines (toBytes after) ∧
      (lines (toBytes before)).length = line - 1 := by
  obtain ⟨hlines, hlength⟩ := lines_append (toBytes row ++ toBytes after) (ends_toBytes h.starts)
  obtain ⟨ending, hrow, hending⟩ := h.exists_ending
  have hbytes := (congrArg toBytes hrow).trans (toBytes_append _ _)
  have hbody := lineBreak_not_mem_toBytes (not_mem_content row)
  have hfirst : lines (toBytes row ++ toBytes after) = toBytes row :: lines (toBytes after) := by
    rcases hending with rfl | ⟨rfl, rfl⟩
    · have hbreak : toBytes ['\n'] = [lineBreak] := by decide
      rw [hbytes, hbreak, List.append_assoc, List.singleton_append, lines_append_break,
        lines_concat_break hbody, List.singleton_append]
    · have hnil : toBytes [] = [] := rfl
      rw [hnil, List.append_nil] at hbytes
      rw [hnil, List.append_nil]
      exact lines_of_not_mem (hbytes ▸ hbody) (toBytes_ne_nil h.filled)
  refine ⟨?_, ?_⟩
  · rw [h.split, List.append_assoc, toBytes_append, toBytes_append, hlines, hfirst]
  · rw [hlength, count_toBytes, h.number]
    omega

lemma LineAt.lineWidth_eq (h : LineAt cs line before row after) :
    lineWidth (toBytes row) = byteLength (content row) := by
  obtain ⟨ending, hrow, hending⟩ := h.exists_ending
  have hbytes := (congrArg toBytes hrow).trans (toBytes_append _ _)
  have hbody : ∀ b ∈ toBytes (content row), decide (b ≠ lineBreak) = true := by
    intro b hb
    simpa using fun heq : b = lineBreak =>
      lineBreak_not_mem_toBytes (not_mem_content row) (heq ▸ hb)
  have hnone : (toBytes ending).takeWhile (· ≠ lineBreak) = [] := by
    rcases hending with rfl | ⟨rfl, -⟩ <;> decide
  rw [lineWidth, hbytes, List.takeWhile_append_of_pos hbody, hnone, List.append_nil,
    length_toBytes]

/-- The offset of a column is cut to the end of its line. -/
lemma LineAt.offsetOf?_column (h : LineAt cs line before row after) (hcolumn : column ≠ 0) :
    Text.offsetOf? (toBytes cs) line column =
      some (byteLength before + min (column - 1) (byteLength (content row))) := by
  obtain ⟨hlines, hlength⟩ := h.lines_eq
  have hline : line ≠ 0 := by
    rw [h.number]
    omega
  have hrow : (lines (toBytes cs))[line - 1]? = some (toBytes row) := by
    rw [hlines, ← hlength]
    simp
  have hstart : ((lines (toBytes cs)).take (line - 1)).flatten.length = byteLength before := by
    rw [hlines, ← hlength, List.take_left, flatten_lines, length_toBytes]
  simp [Text.offsetOf?, hline, hcolumn, hrow, hstart, h.lineWidth_eq]

/-- The position of an offset on a line counts the bytes of the line before it. -/
lemma LineAt.ofOffset_eq (h : LineAt cs line before row after)
    (hk : k ≤ byteLength (content row)) :
    Position.ofOffset (toBytes cs) (byteLength before + k) = ⟨line, 1 + k⟩ := by
  obtain ⟨ending, hrow, -⟩ := h.exists_ending
  have hbytes : toBytes cs =
      toBytes before ++ (toBytes (content row) ++ toBytes (ending ++ after)) := by
    rw [← toBytes_append, ← toBytes_append, ← List.append_assoc (content row), ← hrow,
      ← List.append_assoc, ← h.split]
  have htake : (toBytes cs).take (byteLength before + k) =
      toBytes before ++ (toBytes (content row)).take k := by
    rw [hbytes, ← length_toBytes before, List.take_length_add_append,
      List.take_append_of_le_length (by rwa [length_toBytes])]
  have hplain : lineBreak ∉ (toBytes (content row)).take k := fun hmem =>
    lineBreak_not_mem_toBytes (not_mem_content row) (List.mem_of_mem_take hmem)
  have hlast : (toBytes before).reverse.takeWhile (· ≠ lineBreak) = [] := by
    rcases ends_toBytes h.starts with hnil | hlast
    · rw [hnil]
      rfl
    · obtain ⟨start, hstart⟩ := List.getLast?_eq_some_iff.mp hlast
      simp [hstart]
  have hall : ∀ b ∈ ((toBytes (content row)).take k).reverse, decide (b ≠ lineBreak) = true := by
    intro b hb
    simpa using fun heq : b = lineBreak => hplain (heq ▸ List.mem_reverse.mp hb)
  rw [Position.ofOffset, htake, List.count_append, count_toBytes, List.count_eq_zero.mpr hplain,
    List.reverse_append, List.takeWhile_append_of_pos hall, hlast, h.number]
  simp [length_toBytes, hk]

/-- Every byte of a text is on a line. -/
lemma exists_lineAt_of_lt (h : offset < byteLength cs) :
    ∃ line before row after k, LineAt cs line before row after ∧
      k ≤ byteLength (content row) ∧ offset = byteLength before + k := by
  induction hlength : cs.length using Nat.strongRecOn generalizing cs offset with
  | ind length ih =>
    have hfilled : cs ≠ [] := by
      rintro rfl
      exact absurd h (Nat.not_lt_zero _)
    obtain ⟨first, rest, hfirst⟩ := exists_first_line hfilled
    have hsplit : cs = first ++ rest := hfirst.split
    by_cases hon : offset ≤ byteLength (content first)
    · exact ⟨1, [], first, rest, offset, hfirst, hon, (Nat.zero_add _).symm⟩
    · -- The byte is behind the first line, so the first line has a break.
      obtain ⟨hle, hlast⟩ := hfirst.byteLength_row_le
      rw [hsplit, byteLength_append] at h
      have hbreak : first.getLast? = some '\n' := by
        obtain ⟨ending, hrow, rfl | ⟨rfl, rfl⟩⟩ := hfirst.exists_ending
        · rw [hrow, List.getLast?_concat]
        · rw [List.append_nil] at hrow
          rw [← hrow] at hon
          exact absurd (Nat.le_of_lt h) hon
      have hshorter : rest.length < length := by
        have := List.length_pos_iff.mpr hfirst.filled
        rw [← hlength, hsplit, List.length_append]
        omega
      obtain ⟨line, before, row, after, k, hrow, hk, hoffset⟩ :=
        ih rest.length hshorter (show offset - byteLength first < byteLength rest by omega) rfl
      refine ⟨line + 1, first ++ before, row, after, k, hfirst.below_first hbreak hrow, hk, ?_⟩
      rw [byteLength_append]
      omega

/-- A line has a byte, and no other line has it. -/
lemma exists_lineAt_iff :
    (∃ before row after, LineAt cs line before row after) ↔
      ∃ offset < byteLength cs, (Position.ofOffset (toBytes cs) offset).line = line := by
  constructor
  · rintro ⟨before, row, after, h⟩
    have hpos := h.byteLength_lt
    have hposition := h.ofOffset_eq (Nat.zero_le _)
    refine ⟨byteLength before, ?_, congrArg Position.line hposition⟩
    rw [h.split, byteLength_append]
    omega
  · rintro ⟨offset, hlt, rfl⟩
    obtain ⟨line, before, row, after, k, h, hk, rfl⟩ := exists_lineAt_of_lt hlt
    rw [h.ofOffset_eq hk]
    exact ⟨before, row, after, h⟩

lemma offsetOf?_eq_none_iff : offsetOf? (toBytes cs) line column = none ↔
    line = 0 ∨ column = 0 ∨ ¬∃ before row after, LineAt cs line before row after := by
  constructor
  · intro hnone
    by_contra hsome
    simp only [not_or, not_not] at hsome
    obtain ⟨-, hcolumn, before, row, after, h⟩ := hsome
    simp [h.offsetOf?_column hcolumn] at hnone
  · intro hnone
    rw [offsetOf?]
    split
    case isTrue => rfl
    case isFalse hpositive =>
      simp only [Bool.or_eq_true, decide_eq_true_eq, not_or] at hpositive
      rw [Option.map_eq_none_iff, List.getElem?_eq_none_iff]
      by_contra hlt
      have hline := exists_lineAt (Nat.not_le.mp hlt)
      rw [Nat.sub_add_cancel (Nat.pos_of_ne_zero hpositive.1)] at hline
      exact (hnone.resolve_left hpositive.1).resolve_left hpositive.2 hline

/-- A position leads to its column, cut to the end of its line. -/
lemma exists_lineAt_of_offsetOf?_column (h : offsetOf? (toBytes cs) line column = some offset) :
    column ≠ 0 ∧ ∃ before row after, LineAt cs line before row after ∧
      offset = byteLength before + min (column - 1) (byteLength (content row)) := by
  have hsome : ¬(line = 0 ∨ column = 0 ∨ ¬∃ before row after, LineAt cs line before row after) := by
    rw [← offsetOf?_eq_none_iff, h]
    exact Option.some_ne_none offset
  simp only [not_or, not_not] at hsome
  obtain ⟨-, hcolumn, before, row, after, hrow⟩ := hsome
  exact ⟨hcolumn, before, row, after, hrow,
    Option.some.inj (h.symm.trans (hrow.offsetOf?_column hcolumn))⟩

/-- On one line the offset grows with the column. -/
lemma offsetOf?_mono {column' offset' : Nat}
    (h : offsetOf? (toBytes cs) line column = some offset)
    (h' : offsetOf? (toBytes cs) line column' = some offset') (hle : column ≤ column') :
    offset ≤ offset' := by
  rw [offsetOf?] at h h'
  split at h
  case isTrue => cases h
  case isFalse =>
    split at h'
    case isTrue => cases h'
    case isFalse =>
      obtain ⟨row, hrow, rfl⟩ := Option.map_eq_some_iff.mp h
      obtain ⟨row', hrow', rfl⟩ := Option.map_eq_some_iff.mp h'
      cases hrow.symm.trans hrow'
      omega

lemma line_ofOffset_mono (bytes : List UInt8) {offset offset' : Nat} (h : offset ≤ offset') :
    (Position.ofOffset bytes offset).line ≤ (Position.ofOffset bytes offset').line :=
  Nat.add_le_add_left ((List.take_sublist_take_left h).count_le lineBreak) 1

/-- The byte behind the content of a line is its line break, unless the text ends there. -/
lemma LineAt.end_of_content (h : LineAt cs line before row after) :
    byteLength before + byteLength (content row) = byteLength cs ∨
      (toBytes cs)[byteLength before + byteLength (content row)]? = some lineBreak := by
  obtain ⟨ending, hrow, hending⟩ := h.exists_ending
  rw [← byteLength_append]
  rcases hending with rfl | ⟨rfl, rfl⟩
  · right
    have hsplit : cs = (before ++ content row) ++ ('\n' :: after) := by
      rw [List.append_assoc, ← List.singleton_append, ← List.append_assoc (content row), ← hrow,
        ← List.append_assoc, ← h.split]
    have hbytes : toBytes cs = toBytes (before ++ content row) ++ lineBreak :: toBytes after := by
      rw [hsplit, toBytes_append]
      rfl
    rw [hbytes, ← length_toBytes]
    simp
  · left
    rw [List.append_nil] at hrow
    rw [← hrow, h.split, List.append_nil]

end SpecLens.Text

namespace SpecLens.Source

open Text

variable {src : Source} {line column offset : Nat}

/-- A position leads to an offset on its line: to its column, or to where the line ends before
it. -/
lemma position_of_offsetAt (h : src.offsetAt line column = some offset) :
    offset ≤ byteLength src.chars ∧ (Position.ofOffset src.bytes offset).line = line ∧
      ((Position.ofOffset src.bytes offset).column = column ∨
        (Position.ofOffset src.bytes offset).column < column ∧
          (offset = byteLength src.chars ∨ src.bytes[offset]? = some lineBreak)) := by
  obtain ⟨hcolumn, before, row, after, hrow, rfl⟩ := exists_lineAt_of_offsetOf?_column h
  have hposition := hrow.ofOffset_eq (Nat.min_le_right (column - 1) (byteLength (content row)))
  have hle : byteLength before + byteLength (content row) ≤ byteLength src.chars := by
    rw [hrow.split, byteLength_append, byteLength_append]
    have := hrow.byteLength_row_le
    omega
  rw [bytes, hposition]
  refine ⟨by omega, rfl, ?_⟩
  rcases Nat.le_total (column - 1) (byteLength (content row)) with hinside | hpast
  · left
    rw [Nat.min_eq_left hinside]
    dsimp only
    omega
  · rw [Nat.min_eq_right hpast]
    rcases Nat.eq_or_lt_of_le hpast with heq | hlt
    · left
      dsimp only
      omega
    · right
      dsimp only
      exact ⟨by omega, hrow.end_of_content⟩

/-- The position of every offset in a text leads back to it, and so does the start of every anchor.
A position has no offset just if its line or column is 0 or no byte of the text is on its line.
Else its offset is on the line, at its column or at the end of a shorter line; it grows with the
column, and that of a later line is larger. -/
theorem offsetAt_inverts_position (src : Source) :
    (∀ offset < byteLength src.chars,
      src.offsetAt (Position.ofOffset src.bytes offset).line
        (Position.ofOffset src.bytes offset).column = some offset) ∧
    (∀ p : Place, p.start < byteLength src.chars →
      src.offsetAt (src.anchorOf p).start.line (src.anchorOf p).start.column =
        some (src.anchorOf p).startByte) ∧
    (∀ line column, src.offsetAt line column = none ↔ line = 0 ∨ column = 0 ∨
      ¬∃ offset < byteLength src.chars, (Position.ofOffset src.bytes offset).line = line) ∧
    (∀ line column offset, src.offsetAt line column = some offset →
      offset ≤ byteLength src.chars ∧ (Position.ofOffset src.bytes offset).line = line ∧
      ((Position.ofOffset src.bytes offset).column = column ∨
        (Position.ofOffset src.bytes offset).column < column ∧
          (offset = byteLength src.chars ∨ src.bytes[offset]? = some lineBreak))) ∧
    (∀ line column column' offset offset', src.offsetAt line column = some offset →
      src.offsetAt line column' = some offset' → column ≤ column' → offset ≤ offset') ∧
    ∀ line line' column column' offset offset', src.offsetAt line column = some offset →
      src.offsetAt line' column' = some offset' → line < line' → offset < offset' := by
  have hback : ∀ offset < byteLength src.chars, src.offsetAt
      (Position.ofOffset src.bytes offset).line (Position.ofOffset src.bytes offset).column =
        some offset := by
    intro offset hlt
    obtain ⟨line, before, row, after, k, hrow, hk, rfl⟩ := exists_lineAt_of_lt hlt
    rw [bytes, hrow.ofOffset_eq hk, offsetAt, bytes, hrow.offsetOf?_column (by simp)]
    simp [hk]
  refine ⟨hback, fun p hp => hback p.start hp, fun line column => ?_,
    fun line column offset h => position_of_offsetAt h, ?_, ?_⟩
  · rw [offsetAt, bytes, offsetOf?_eq_none_iff, exists_lineAt_iff]
  · exact fun line column column' offset offset' h h' hle => offsetOf?_mono h h' hle
  · intro line line' column column' offset offset' h h' hlt
    by_contra hge
    have hline := line_ofOffset_mono src.bytes (Nat.not_lt.mp hge)
    rw [(position_of_offsetAt h).2.1, (position_of_offsetAt h').2.1] at hline
    omega

/-- A column behind the line is the end of the line, and behind the last break there is no line. -/
example : let src : Source := ⟨"ab\nc\n".toList, default⟩
    src.offsetAt 1 9 = some 2 ∧ src.offsetAt 2 1 = some 3 ∧ src.offsetAt 3 1 = none := by decide

end SpecLens.Source
