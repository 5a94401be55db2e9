import SpecLens.Proofs.Toml.Numeral
import SpecLens.Toml.Reader

/-!
# Documents read back

A document of printed sections is read back line by line: each header opens a new table, and each
line under it adds one value to that table.
-/

namespace SpecLens.Toml

variable {c : Char} {cs rest : List Char}

/-- The text stands for a value: it is read as this value with `depth` others around it, whatever
delimiter follows. -/
def Denotes (depth : Nat) (text : String) (v : Value) : Prop :=
  ∀ rest, Delimited rest → value? depth (skipSpace (text.toList ++ rest)) = some (v, rest)

lemma value?_eq_scalar? (depth : Nat) (hbracket : c ≠ '[') (hbrace : c ≠ '\x7b') :
    value? depth (c :: cs) = scalar? (c :: cs) := by
  cases depth with
  | zero => rfl
  | succ depth =>
    rw [value?]
    · exact fun _ h => hbracket (List.cons.inj h).1
    · exact fun _ h => hbrace (List.cons.inj h).1

lemma skipSpace_cons (hc : isSpace c = false) : skipSpace (c :: cs) = c :: cs := by
  rw [skipSpace, List.dropWhile_cons_of_neg (by simp [hc])]

lemma value?_printString (depth : Nat) (s : String) (hrest : Delimited rest) :
    value? depth ((printString s).toList ++ rest) = some (.string s, rest) := by
  have hread := scalar?_printString s hrest
  obtain ⟨q, tail, htext, hq⟩ := exists_printString s
  rw [htext, List.cons_append] at hread ⊢
  rw [value?_eq_scalar? depth (by rintro rfl; simp at hq) (by rintro rfl; simp at hq), hread]

theorem denotes_printString (depth : Nat) (s : String) :
    Denotes depth (printString s) (.string s) := by
  intro rest hrest
  have hread := value?_printString depth s hrest
  obtain ⟨q, tail, htext, hq⟩ := exists_printString s
  rw [htext, List.cons_append] at hread ⊢
  rw [skipSpace_cons (by rcases hq with rfl | rfl <;> rfl), hread]

theorem denotes_printBool (depth : Nat) (b : Bool) : Denotes depth (printBool b) (.boolean b) := by
  intro rest hrest
  cases b <;> cases depth <;> rfl

theorem denotes_toString (depth : Nat) {n : Nat} (hn : inRange n = true) :
    Denotes depth (toString n) (.integer n) := by
  intro rest hrest
  have htext : (toString n).toList = Nat.toDigits 10 n := Nat.toList_repr
  have hread := scalar?_toString hn hrest
  obtain ⟨d, ds, hdigits, hd, -⟩ := exists_toDigits n
  rw [htext, hdigits, List.cons_append] at hread ⊢
  have hspace : isSpace d = false := by
    by_contra h
    have hblank : d = ' ' ∨ d = '\t' := by simpa [isSpace, or_iff_not_imp_left] using h
    rcases hblank with rfl | rfl <;> cases hd
  rw [skipSpace_cons hspace, value?_eq_scalar? depth (by rintro rfl; cases hd)
    (by rintro rfl; cases hd), hread]

/-- A character that no reader skips: it is neither blank nor the start of a comment. -/
def isSolid (c : Char) : Bool := !isSpace c && c != '#' && c != '\n' && c != '\r'

lemma skipFiller_cons (fuel : Nat) (hc : isSolid c = true) :
    skipFiller fuel (c :: cs) = c :: cs := by
  simp only [isSolid, Bool.and_eq_true, Bool.not_eq_true', bne_iff_ne, ne_eq] at hc
  obtain ⟨⟨⟨hspace, hcomment⟩, hbreak⟩, hreturn⟩ := hc
  have hskip : skipComment (c :: cs) = c :: cs := by
    rw [skipComment]
    exact fun _ h => hcomment (List.cons.inj h).1
  cases fuel with
  | zero => rfl
  | succ fuel =>
    rw [skipFiller, skipSpace_cons hspace, hskip]
    split
    · rename_i h
      exact absurd (List.cons.inj h).1 hbreak
    · rename_i h
      exact absurd (List.cons.inj h).1 hreturn
    · rfl

lemma filler_cons (hc : isSolid c = true) : filler (c :: cs) = c :: cs := skipFiller_cons _ hc

lemma filler_break (hc : isSolid c = true) : filler ('\n' :: c :: cs) = c :: cs :=
  skipFiller_cons _ hc

lemma isSolid_quote (hc : c = '"' ∨ c = '\'') : isSolid c = true := by
  rcases hc with rfl | rfl <;> rfl

lemma items?_nil (value : ValueReader) (fuel : Nat) (hcs : filler cs = ']' :: rest) :
    items? value (fuel + 1) cs = some ([], rest) := by
  rw [items?]
  simp only [hcs]

/-- A printed string is an item; what follows it decides whether there are more. -/
lemma items?_printString {depth : Nat} (fuel : Nat) (s : String) (hrest : Delimited rest)
    (hcs : filler cs = (printString s).toList ++ rest) :
    items? (value? depth) (fuel + 1) cs =
      match filler rest with
      | ']' :: rest => some ([.string s], rest)
      | ',' :: rest =>
        (items? (value? depth) fuel rest).map fun (vs, rest) => (.string s :: vs, rest)
      | _ => none := by
  have hread := value?_printString depth s hrest
  obtain ⟨q, tail, htext, hq⟩ := exists_printString s
  rw [htext, List.cons_append] at hcs hread
  rw [items?]
  simp only [hcs]
  split
  · rename_i h
    obtain ⟨rfl, -⟩ := List.cons.inj h
    simp at hq
  · rw [hread]
    rfl

/-- An item of a printed array of several. -/
def printItem (s : String) : String := "\n    " ++ printString s ++ ","

lemma skipFiller_space (fuel : Nat) (cs : List Char) :
    skipFiller (fuel + 1) (' ' :: cs) = skipFiller (fuel + 1) cs := rfl

lemma filler_printItem (s : String) :
    filler ((printItem s).toList ++ rest) = (printString s).toList ++ ',' :: rest := by
  obtain ⟨q, tail, htext, hq⟩ := exists_printString s
  have hline : (printItem s).toList ++ rest =
      '\n' :: ' ' :: ' ' :: ' ' :: ' ' :: q :: (tail ++ ',' :: rest) := by
    simp [printItem, htext]
  rw [hline, htext]
  change skipFiller ((tail ++ ',' :: rest).length + 4 + 1)
    (' ' :: ' ' :: ' ' :: ' ' :: q :: (tail ++ ',' :: rest)) = _
  simp only [skipFiller_space, skipFiller_cons _ (isSolid_quote hq)]
  rfl

/-- Each item of a printed array is read from a line of its own. -/
lemma items?_printItem {depth fuel : Nat} {items : List String} (hfuel : items.length < fuel) :
    items? (value? depth) fuel
        ((items.flatMap fun s => (printItem s).toList) ++ '\n' :: ']' :: rest) =
      some (items.map .string, rest) := by
  induction items generalizing fuel with
  | nil =>
    obtain ⟨fuel, rfl⟩ := Nat.exists_eq_add_one_of_ne_zero (by omega : fuel ≠ 0)
    exact items?_nil _ fuel (filler_break rfl)
  | cons s items ih =>
    obtain ⟨fuel, rfl⟩ := Nat.exists_eq_add_one_of_ne_zero (by omega : fuel ≠ 0)
    rw [List.length_cons] at hfuel
    rw [List.flatMap_cons, List.append_assoc, items?_printString fuel s (.comma _)
      (filler_printItem s), filler_cons rfl]
    simp only [ih (Nat.lt_of_succ_lt_succ hfuel), Option.map_some, List.map_cons]

/-- No item is empty, so there is fuel for all of them. -/
lemma length_le_printItems (items : List String) :
    items.length ≤ (items.flatMap fun s => (printItem s).toList).length := by
  induction items with
  | nil => exact Nat.le_refl 0
  | cons s items ih =>
    have hitem : 0 < (printItem s).toList.length := by simp [printItem]
    rw [List.flatMap_cons, List.length_append, List.length_cons]
    omega

lemma value?_bracket (depth : Nat) (cs : List Char) :
    value? (depth + 1) (skipSpace ('[' :: cs)) =
      (items? (value? depth) (cs.length + 1) cs).map fun (vs, rest) => (.array vs, rest) := rfl

theorem denotes_printArray (depth : Nat) (items : List String) :
    Denotes (depth + 1) (printArray items) (.array (items.map .string)) := by
  intro rest hrest
  match items with
  | [] => rfl
  | [one] =>
    have htext : (printArray [one]).toList ++ rest =
        '[' :: ((printString one).toList ++ ']' :: rest) := by
      simp [printArray]
    obtain ⟨q, tail, hone, hq⟩ := exists_printString one
    have hfiller : filler ((printString one).toList ++ ']' :: rest) =
        (printString one).toList ++ ']' :: rest := by
      rw [hone]
      exact filler_cons (isSolid_quote hq)
    rw [htext, value?_bracket, items?_printString _ one (.bracket rest) hfiller, filler_cons rfl]
    rfl
  | one :: two :: more =>
    have htext : (printArray (one :: two :: more)).toList ++ rest =
        '[' :: (((one :: two :: more).flatMap fun s => (printItem s).toList) ++
          '\n' :: ']' :: rest) := by
      simp [printArray, printItem, String.toList_join, List.flatMap, Function.comp_def]
    have hlength : (one :: two :: more).length <
        (((one :: two :: more).flatMap fun s => (printItem s).toList) ++
          '\n' :: ']' :: rest).length + 1 := by
      have := length_le_printItems (one :: two :: more)
      rw [List.length_append]
      omega
    rw [htext, value?_bracket, items?_printItem hlength]
    rfl

/-- A key that is written without quotes. -/
def IsBare (key : String) : Prop := key.toList ≠ [] ∧ ∀ c ∈ key.toList, isKeyChar c = true

instance (key : String) : Decidable (IsBare key) :=
  decidable_of_iff (key.toList.isEmpty = false ∧ key.toList.all isKeyChar = true)
    (by simp [IsBare])

lemma IsBare.exists_cons {key : String} (hkey : IsBare key) :
    ∃ k ks, key.toList = k :: ks ∧ isKeyChar k = true := by
  obtain ⟨k, ks, hks⟩ := List.exists_cons_of_ne_nil hkey.1
  exact ⟨k, ks, hks, hkey.2 k (by rw [hks]; exact List.mem_cons_self)⟩

lemma ne_of_isKeyChar {d : Char} (hc : isKeyChar c = true) (hd : isKeyChar d = false) : c ≠ d := by
  rintro rfl
  rw [hc] at hd
  cases hd

lemma isSpace_of_isKeyChar (hc : isKeyChar c = true) : isSpace c = false := by
  simp [isSpace, ne_of_isKeyChar hc (d := ' ') rfl, ne_of_isKeyChar hc (d := '\t') rfl]

lemma segment?_bare {key : String} (hkey : IsBare key) (hc : isKeyChar c = false) :
    segment? (key.toList ++ c :: cs) = some (key, c :: cs) := by
  have hchars := hkey.2
  have htake : (key.toList ++ c :: cs).takeWhile isKeyChar = key.toList := by
    rw [List.takeWhile_append_of_pos hchars, List.takeWhile_cons_of_neg (by simp [hc]),
      List.append_nil]
  have hdrop : (key.toList ++ c :: cs).dropWhile isKeyChar = c :: cs := by
    rw [List.dropWhile_append_of_pos hchars, List.dropWhile_cons_of_neg (by simp [hc])]
  obtain ⟨k, ks, hks, hk⟩ := hkey.exists_cons
  unfold segment?
  split
  · rename_i h
    simp at h
  · rename_i k' _ h
    rw [hks] at h
    obtain ⟨rfl, -⟩ := List.cons.inj h
    rw [if_neg (by rintro (rfl | rfl) <;> cases hk)]
    simp only [htake, hdrop, List.isEmpty_iff, if_neg hkey.1, String.ofList_toList]

/-- A bare key is read up to what cannot belong to it. -/
lemma key?_bare {key : String} (hkey : IsBare key) (n : Nat) (hc : isKeyChar c = false) :
    key? (n + 1) (key.toList ++ c :: cs) =
      match skipSpace (c :: cs) with
      | '.' :: rest => (key? n rest).map fun (names, rest) => (key :: names, rest)
      | rest => some ([key], rest) := by
  obtain ⟨k, ks, hks, hk⟩ := hkey.exists_cons
  have hskip : skipSpace (key.toList ++ c :: cs) = key.toList ++ c :: cs := by
    rw [hks]
    exact skipSpace_cons (isSpace_of_isKeyChar hk)
  rw [key?, hskip, segment?_bare hkey hc]
  rfl

/-! ### Lines -/

/-- A line that gives a key its value, with the text it is written as. -/
structure Assignment where
  key : String
  text : String
  value : Value

namespace Assignment

structure Sound (a : Assignment) : Prop where
  bare : IsBare a.key
  denotes : Denotes maxDepth a.text a.value

def line (a : Assignment) : String := printPair (a.key, a.text)

def entry (a : Assignment) : String × Item := (a.key, .value a.value)

end Assignment

lemma Table.setEntry_fresh {key : String} {item : Item} {entries : List (String × Item)}
    (hfresh : ∀ e ∈ entries, e.1 ≠ key) : setEntry key item entries = entries ++ [(key, item)] := by
  induction entries with
  | nil => rfl
  | cons e entries ih =>
    obtain ⟨he, hentries⟩ := List.forall_mem_cons.mp hfresh
    rw [setEntry, if_neg he, ih hentries, List.cons_append]

lemma Table.find?_fresh {t : Table} {key : String} (hfresh : ∀ e ∈ t.entries, e.1 ≠ key) :
    t.find? key = none := by
  simpa [Table.find?] using hfresh

lemma Table.insert_fresh {t : Table} {key : String} (v : Value) (hdotted : t.dotted = false)
    (hfresh : ∀ e ∈ t.entries, e.1 ≠ key) :
    t.insert [] key v = some { t with entries := t.entries ++ [(key, .value v)] } := by
  simp [Table.insert, Table.modify, hdotted, find?_fresh hfresh, Table.set, setEntry_fresh hfresh]

namespace Draft

/-- The draft is the given one after the rest of the document. -/
def Reads (d : Draft) (cs : List Char) (e : Draft) : Prop :=
  ∀ fuel, cs.length < fuel → d.readLines fuel cs = some e

variable {d e : Draft}

lemma reads_nil (d : Draft) : d.Reads [] d := by
  intro fuel hfuel
  obtain ⟨fuel, rfl⟩ := Nat.exists_eq_add_of_lt hfuel
  rfl

lemma Reads.break (h : d.Reads rest e) : d.Reads ('\n' :: rest) e := by
  intro fuel hfuel
  obtain ⟨fuel, rfl⟩ := Nat.exists_eq_add_one_of_ne_zero (Nat.ne_zero_of_lt hfuel)
  exact h fuel (Nat.lt_of_succ_lt_succ hfuel)

lemma pair?_assignment {a : Assignment} (ha : a.Sound) :
    pair? (value? maxDepth) (a.line.toList ++ rest) =
      some (([], a.key, a.value), '\n' :: rest) := by
  have hline : a.line.toList ++ rest =
      a.key.toList ++ ' ' :: '=' :: ' ' :: (a.text.toList ++ '\n' :: rest) := by
    simp [Assignment.line, printPair]
  have hkey : key? maxDepth (a.line.toList ++ rest) =
      some ([a.key], '=' :: ' ' :: (a.text.toList ++ '\n' :: rest)) := by
    rw [hline, maxDepth, key?_bare ha.bare 78 rfl]
    rfl
  have hvalue : value? maxDepth (skipSpace (' ' :: (a.text.toList ++ '\n' :: rest))) =
      some (a.value, '\n' :: rest) := ha.denotes _ (.line rest)
  simp [pair?, hkey, after?, hvalue]

lemma pairLine?_assignment {a : Assignment} (ha : a.Sound) {table : Table}
    (htable : d.table.insert [] a.key a.value = some table) :
    d.pairLine? (a.line.toList ++ rest) = some ({ d with table }, rest) := by
  have hend : afterLine? ('\n' :: rest) = some rest := rfl
  simp [pairLine?, pair?_assignment ha, hend, htable]

/-- A line that starts with a key is one with a value for it. -/
lemma readLines_key (fuel : Nat) (hc : isKeyChar c = true) :
    d.readLines (fuel + 1) (c :: cs) =
      (d.pairLine? (c :: cs)).bind fun (d, rest) => d.readLines fuel rest := by
  rw [readLines, skipSpace_cons (isSpace_of_isKeyChar hc)]
  split
  · rename_i h
    cases h
  · rename_i h
    exact absurd (List.cons.inj h).1 (ne_of_isKeyChar hc rfl)
  · rename_i h
    exact absurd (List.cons.inj h).1 (ne_of_isKeyChar hc rfl)
  · rename_i h
    exact absurd (List.cons.inj h).1 (ne_of_isKeyChar hc rfl)
  · rename_i h
    exact absurd (List.cons.inj h).1 (ne_of_isKeyChar hc rfl)
  · rfl

lemma Reads.assignment {a : Assignment} (ha : a.Sound) {table : Table}
    (htable : d.table.insert [] a.key a.value = some table)
    (h : { d with table := table }.Reads rest e) : d.Reads (a.line.toList ++ rest) e := by
  intro fuel hfuel
  obtain ⟨fuel, rfl⟩ := Nat.exists_eq_add_one_of_ne_zero (Nat.ne_zero_of_lt hfuel)
  have hline : d.pairLine? (a.line.toList ++ rest) = some ({ d with table }, rest) :=
    pairLine?_assignment ha htable
  obtain ⟨k, ks, hk, hkey⟩ := ha.bare.exists_cons
  obtain ⟨tail, htail⟩ : ∃ tail, a.line.toList ++ rest = k :: tail := by
    simp [Assignment.line, printPair, hk]
  have hlength : rest.length < (a.line.toList ++ rest).length := by
    simp [Assignment.line, printPair]
    omega
  rw [htail] at hline hfuel hlength ⊢
  rw [readLines_key fuel hkey, hline]
  exact h fuel (by omega)

lemma header?_bare {name : String} (hname : IsBare name) {d' : Draft}
    (hopen : d.openTable [name] = some d') :
    d.header? (name.toList ++ ']' :: '\n' :: rest) = some (d', rest) := by
  have hkey : key? maxDepth (name.toList ++ ']' :: '\n' :: rest) =
      some ([name], ']' :: '\n' :: rest) := by
    rw [maxDepth, key?_bare hname 78 rfl]
    rfl
  have hend : afterLine? ('\n' :: rest) = some rest := rfl
  obtain ⟨k, ks, hk, hchar⟩ := hname.exists_cons
  rw [header?]
  · simp [hkey, after?, hend, hopen]
  · intro cs h
    rw [hk] at h
    exact ne_of_isKeyChar hchar rfl (List.cons.inj h).1

lemma Reads.header {name : String} (hname : IsBare name) {d' : Draft}
    (hopen : d.openTable [name] = some d') (h : d'.Reads rest e) :
    d.Reads ('[' :: (name.toList ++ ']' :: '\n' :: rest)) e := by
  intro fuel hfuel
  obtain ⟨fuel, rfl⟩ := Nat.exists_eq_add_one_of_ne_zero (Nat.ne_zero_of_lt hfuel)
  have hread : d.readLines (fuel + 1) ('[' :: (name.toList ++ ']' :: '\n' :: rest)) =
      d'.readLines fuel rest := by
    change (d.header? (name.toList ++ ']' :: '\n' :: rest)).bind _ = _
    rw [header?_bare hname hopen]
    rfl
  rw [hread]
  exact h fuel (by simp at hfuel; omega)

end Draft

/-! ### Sections -/

/-- A section with the lines under its header. -/
structure Section where
  name : String
  lines : List Assignment

namespace Section

structure Sound (s : Section) : Prop where
  bare : IsBare s.name
  lines : ∀ a ∈ s.lines, a.Sound
  nodup : (s.lines.map (·.key)).Nodup

/-- The section as it is printed. -/
def printed (s : Section) : String × List (String × String) :=
  (s.name, s.lines.map fun a => (a.key, a.text))

def item (s : Section) : String × Item :=
  (s.name, .table false false (s.lines.map Assignment.entry))

/-- The table that the section amounts to. -/
def value (s : Section) : String × Value :=
  (s.name, .table (s.lines.map fun a => (a.key, a.value)))

lemma entriesToValues_lines (lines : List Assignment) :
    entriesToValues (lines.map Assignment.entry) = lines.map fun a => (a.key, a.value) := by
  induction lines with
  | nil => rfl
  | cons a lines ih => simp [entriesToValues, Assignment.entry, Item.toValue, ih]

lemma entriesToValues_items (sections : List Section) :
    entriesToValues (sections.map item) = sections.map value := by
  induction sections with
  | nil => rfl
  | cons s sections ih =>
    simp [entriesToValues, item, value, Item.toValue, entriesToValues_lines, ih]

end Section

namespace Draft

variable {d e : Draft}

/-- All lines under a header go into its table. -/
lemma Reads.assignments {lines : List Assignment} (hsound : ∀ a ∈ lines, a.Sound)
    (hnodup : (lines.map (·.key)).Nodup) (hdotted : d.table.dotted = false)
    (hfresh : ∀ a ∈ lines, ∀ e ∈ d.table.entries, e.1 ≠ a.key)
    (h : Reads { d with
      table := { d.table with entries := d.table.entries ++ lines.map Assignment.entry } } rest e) :
    d.Reads ((lines.flatMap fun a => a.line.toList) ++ rest) e := by
  induction lines generalizing d with
  | nil => simpa using h
  | cons a lines ih =>
    rw [List.map_cons, List.nodup_cons] at hnodup
    rw [List.flatMap_cons, List.append_assoc]
    refine Reads.assignment (hsound a List.mem_cons_self)
      (Table.insert_fresh a.value hdotted (hfresh a List.mem_cons_self)) ?_
    refine ih (fun b hb => hsound b (List.mem_cons_of_mem a hb)) hnodup.2 hdotted ?_ ?_
    · intro b hb e he
      rcases List.mem_append.mp he with he | he
      · exact hfresh b (List.mem_cons_of_mem a hb) e he
      · rw [List.mem_singleton.mp he]
        exact fun h => hnodup.1 (List.mem_map.mpr ⟨b, hb, h.symm⟩)
    · simpa [Assignment.entry] using h

/-- The draft in which the tables of earlier sections are complete and that of `s` is open. -/
def opened (done : List (String × Item)) (s : Section) : Draft :=
  ⟨⟨false, false, done⟩, [s.name], false, ⟨false, false, s.lines.map Assignment.entry⟩⟩

lemma close_opened {done : List (String × Item)} {s : Section} (hfresh : ∀ e ∈ done, e.1 ≠ s.name) :
    (opened done s).close = some ⟨false, false, done ++ [s.item]⟩ := by
  have hfind : Table.find? ⟨false, false, done⟩ s.name = none := Table.find?_fresh hfresh
  simp [opened, close, Table.modify, hfind, Table.set, Table.setEntry_fresh hfresh, Table.toItem,
    Section.item]

lemma Reads.section {done : List (String × Item)} {s : Section} (hs : s.Sound)
    (hclose : d.close = some ⟨false, false, done⟩) (hfresh : ∀ e ∈ done, e.1 ≠ s.name)
    (h : (opened done s).Reads rest e) :
    d.Reads ((printSection s.printed.1 s.printed.2).toList ++ rest) e := by
  have htext : (printSection s.printed.1 s.printed.2).toList ++ rest =
      '[' :: (s.name.toList ++ ']' :: '\n' ::
        ((s.lines.flatMap fun a => a.line.toList) ++ rest)) := by
    simp [printSection, Section.printed, Assignment.line, String.toList_join, List.flatMap,
      Function.comp_def]
  have hfind : Table.find? ⟨false, false, done⟩ s.name = none := Table.find?_fresh hfresh
  have hopen : d.openTable [s.name] = some ⟨⟨false, false, done⟩, [s.name], false, .defined⟩ := by
    simp [openTable, hclose, Table.lookup?, hfind]
  rw [htext]
  refine Reads.header hs.bare hopen (Reads.assignments hs.lines hs.nodup rfl ?_ ?_)
  · intro a _ e he
    cases he
  · exact h

/-- A printed document is read section by section. -/
lemma reads_printSections {done : List (String × Item)} {sections : List Section}
    (hclose : d.close = some ⟨false, false, done⟩) (hsound : ∀ s ∈ sections, s.Sound)
    (hnodup : (sections.map (·.name)).Nodup)
    (hfresh : ∀ s ∈ sections, ∀ e ∈ done, e.1 ≠ s.name) :
    ∃ e, d.Reads (printSections (sections.map Section.printed)).toList e ∧
      e.close = some ⟨false, false, done ++ sections.map Section.item⟩ := by
  induction sections generalizing d done with
  | nil => exact ⟨d, by simpa [printSections] using reads_nil d, by simpa using hclose⟩
  | cons s sections ih =>
    rw [List.map_cons, List.nodup_cons] at hnodup
    have hthis : ∀ e ∈ done, e.1 ≠ s.name := hfresh s List.mem_cons_self
    have hrest : ∀ t ∈ sections, ∀ e ∈ done ++ [s.item], e.1 ≠ t.name := by
      intro t ht e he
      rcases List.mem_append.mp he with he | he
      · exact hfresh t (List.mem_cons_of_mem s ht) e he
      · rw [List.mem_singleton.mp he]
        exact fun h => hnodup.1 (List.mem_map.mpr ⟨t, ht, h.symm⟩)
    obtain ⟨e, hreads, hend⟩ := ih (close_opened hthis)
      (fun t ht => hsound t (List.mem_cons_of_mem s ht)) hnodup.2 hrest
    refine ⟨e, ?_, by simpa using hend⟩
    -- a blank line stands before each section but the first
    cases sections with
    | nil =>
      have hsection := Reads.section (hsound s List.mem_cons_self) hclose hthis hreads
      simpa [printSections] using hsection
    | cons t sections =>
      have hsection := Reads.section (hsound s List.mem_cons_self) hclose hthis hreads.break
      simpa [printSections] using hsection

end Draft

lemma head?_printSections (sections : List Section) :
    (printSections (sections.map Section.printed)).toList.head? ≠ some '\ufeff' := by
  match sections with
  | [] => decide
  | [s] => simp [printSections, printSection]
  | s :: t :: sections => simp [printSections, printSection]

/-- A document of printed sections is read as their tables. -/
theorem read?_printSections {sections : List Section} (hsound : ∀ s ∈ sections, s.Sound)
    (hnodup : (sections.map (·.name)).Nodup) :
    read? (printSections (sections.map Section.printed)).toList =
      some (sections.map Section.value) := by
  have hempty : Draft.empty.close = some ⟨false, false, []⟩ := rfl
  obtain ⟨e, hreads, hclose⟩ := Draft.reads_printSections hempty hsound hnodup
    (fun _ _ _ h => absurd h List.not_mem_nil)
  unfold read?
  rw [if_neg (head?_printSections sections)]
  simp [hreads _ (Nat.lt_succ_self _), hclose, Section.entriesToValues_items]

end SpecLens.Toml
