import Mathlib.Tactic.Lemma
import SpecLens.Toml.Reader

/-!
# Integers in range

All integers of a document that is read have 64 bits with their sign. They have them when they are
read as scalars, and all that is done with values on the way to the complete document is to move them
around.
-/

namespace SpecLens.Toml

/-- All integers in a value are in range. -/
inductive Value.Bounded : Value → Prop where
  | string (text : String) : Bounded (.string text)
  | integer {n : Int} (h : inRange n = true) : Bounded (.integer n)
  | float : Bounded .float
  | boolean (b : Bool) : Bounded (.boolean b)
  | date : Bounded .date
  | array {items : List Value} (h : ∀ v ∈ items, Bounded v) : Bounded (.array items)
  | table {entries : List (String × Value)} (h : ∀ e ∈ entries, Bounded e.2) :
      Bounded (.table entries)

/-- All integers in an entry of a table are in range. -/
inductive Item.Bounded : Item → Prop where
  | value {v : Value} (h : v.Bounded) : Bounded (.value v)
  | table {implicit dotted : Bool} {entries : List (String × Item)}
      (h : ∀ e ∈ entries, Bounded e.2) : Bounded (.table implicit dotted entries)
  | tables {elements : List (List (String × Item))}
      (h : ∀ entries ∈ elements, ∀ e ∈ entries, Bounded e.2) : Bounded (.tables elements)

lemma forall_entriesToValues {entries : List (String × Item)}
    (h : ∀ e ∈ entries, e.2.toValue.Bounded) : ∀ e ∈ entriesToValues entries, e.2.Bounded := by
  induction entries with
  | nil => simp [entriesToValues]
  | cons e entries ih =>
    obtain ⟨he, hentries⟩ := List.forall_mem_cons.mp h
    rw [entriesToValues]
    exact List.forall_mem_cons.mpr ⟨he, ih hentries⟩

lemma forall_elementsToValues {elements : List (List (String × Item))}
    (h : ∀ entries ∈ elements, ∀ e ∈ entries, e.2.toValue.Bounded) :
    ∀ v ∈ elementsToValues elements, v.Bounded := by
  induction elements with
  | nil => simp [elementsToValues]
  | cons entries elements ih =>
    obtain ⟨hentries, helements⟩ := List.forall_mem_cons.mp h
    rw [elementsToValues]
    exact List.forall_mem_cons.mpr ⟨.table (forall_entriesToValues hentries), ih helements⟩

lemma Item.Bounded.toValue {item : Item} (h : item.Bounded) : item.toValue.Bounded := by
  induction h with
  | value h => 
    rw [Item.toValue]
    exact h
  | table _ ih =>
    rw [Item.toValue]
    exact .table (forall_entriesToValues ih)
  | tables _ ih =>
    rw [Item.toValue]
    exact .array (forall_elementsToValues ih)

lemma bounded_of_integerOf {n : Int} {rest rest' : List Char} {v : Value}
    (h : integerOf n rest = some (v, rest')) : v.Bounded := by
  unfold integerOf at h
  split at h
  · rename_i hn
    cases h
    exact .integer hn
  · cases h

lemma bounded_of_integer? {cs rest : List Char} {v : Value} (h : integer? cs = some (v, rest)) :
    v.Bounded := by
  unfold integer? at h
  split at h <;>
  · obtain ⟨⟨ds, tail⟩, -, hread⟩ := Option.bind_eq_some_iff.mp h
    exact bounded_of_integerOf hread

lemma eq_float_of_float? {cs rest : List Char} {v : Value} (h : float? cs = some (v, rest)) :
    v = .float := by
  unfold float? at h
  split at h
  split at h
  · cases h
    rfl
  · cases h
    rfl
  · obtain ⟨⟨whole, tail⟩, -, hread⟩ := Option.bind_eq_some_iff.mp h
    dsimp only at hread
    split at hread
    · cases hread
    · split at hread <;> cases hread
      rfl

lemma eq_date_of_date? {cs rest : List Char} {v : Value} (h : date? cs = some (v, rest)) :
    v = .date := by
  unfold date? at h
  split at h
  · split at h
    · split at h
      · split at h <;>
        · cases h
          rfl
      · cases h
        rfl
    · cases h
      rfl
  · obtain ⟨tail, -, hread⟩ := Option.map_eq_some_iff.mp h
    cases hread
    rfl

lemma bounded_of_scalar? {cs rest : List Char} {v : Value} (h : scalar? cs = some (v, rest)) :
    v.Bounded := by
  unfold scalar? at h
  split at h
  · cases h
    exact .boolean true
  · cases h
    exact .boolean false
  · split at h
    · obtain ⟨⟨text, tail⟩, -, hread⟩ := Option.map_eq_some_iff.mp h
      cases hread
      exact .string _
    · rw [Option.or_eq_some_iff, Option.or_eq_some_iff] at h
      obtain hdate | ⟨-, hfloat | ⟨-, hinteger⟩⟩ := h
      · rw [eq_date_of_date? hdate]
        exact .date
      · rw [eq_float_of_float? hfloat]
        exact .float
      · exact bounded_of_integer? hinteger
  · cases h

/-! ### Tables -/

namespace Table

/-- All integers in a table are in range. -/
def Bounded (t : Table) : Prop := ∀ e ∈ t.entries, e.2.Bounded

variable {t u : Table} {key : String} {item : Item}

lemma bounded_defined : defined.Bounded := fun _ h => absurd h List.not_mem_nil

lemma Bounded.toItem (ht : t.Bounded) : t.toItem.Bounded := .table ht

lemma Bounded.find? (ht : t.Bounded) (h : t.find? key = some item) : item.Bounded := by
  obtain ⟨e, he, rfl⟩ := Option.map_eq_some_iff.mp h
  exact ht e (List.mem_of_find?_eq_some he)

lemma mem_setEntry {entries : List (String × Item)} {e : String × Item}
    (h : e ∈ setEntry key item entries) : e = (key, item) ∨ e ∈ entries := by
  induction entries with
  | nil => exact .inl (List.mem_singleton.mp h)
  | cons d entries ih =>
    rw [setEntry] at h
    split at h
    · exact (List.mem_cons.mp h).imp_right (List.mem_cons_of_mem d)
    · rcases List.mem_cons.mp h with rfl | h
      · exact .inr List.mem_cons_self
      · exact (ih h).imp_right (List.mem_cons_of_mem d)

lemma Bounded.set (ht : t.Bounded) (hitem : item.Bounded) : (t.set key item).Bounded := by
  intro e he
  rcases mem_setEntry he with rfl | he
  · exact hitem
  · exact ht e he

lemma Bounded.erase (ht : t.Bounded) (key : String) : (t.erase key).Bounded :=
  fun e he => ht e (List.mem_filter.mp he).1

/-- The last of several tables, which is the one that a path leads into. -/
lemma bounded_getLast {elements : List (List (String × Item))} {last : List (String × Item)}
    (h : (Item.tables elements).Bounded) (hlast : elements.getLast? = some last)
    (implicit dotted : Bool) : Bounded ⟨implicit, dotted, last⟩ := by
  cases h with
  | tables h => exact h last (List.mem_of_getLast? hlast)

lemma Bounded.modify {dotted : Bool} {f : Table → Option Table}
    (hf : ∀ t u, t.Bounded → f t = some u → u.Bounded) {path : List String} (ht : t.Bounded)
    (h : modify dotted f path t = some u) : u.Bounded := by
  induction path generalizing t u with
  | nil => exact hf t u ht h
  | cons key path ih =>
    rw [Table.modify] at h
    split at h
    · obtain ⟨v, hv, rfl⟩ := Option.map_eq_some_iff.mp h
      have hnew : Bounded ⟨true, dotted, []⟩ := fun _ h => absurd h List.not_mem_nil
      exact ht.set (ih hnew hv).toItem
    · cases h
    · rename_i elements hfind
      split at h
      · cases h
      · rename_i last hlast
        obtain ⟨v, hv, rfl⟩ := Option.map_eq_some_iff.mp h
        have helements := ht.find? hfind
        -- only the last of the elements is replaced
        have hv := ih (bounded_getLast helements hlast false false) hv
        refine ht.set (.tables fun entries hentries e he => ?_)
        rcases List.mem_append.mp hentries with hentries | hentries
        · cases helements with
          | tables helements => exact helements entries (List.dropLast_subset _ hentries) e he
        · rw [List.mem_singleton.mp hentries] at he
          exact hv e he
    · rename_i implicit isDotted entries hfind
      split at h
      · cases h
      · obtain ⟨v, hv, rfl⟩ := Option.map_eq_some_iff.mp h
        cases ht.find? hfind with
        | table hentries => exact ht.set (ih (t := ⟨_, _, _⟩) hentries hv).toItem

lemma Bounded.lookup? {path : List String} (ht : t.Bounded)
    (h : t.lookup? path key = some (some item)) : item.Bounded := by
  induction path generalizing t with
  | nil => exact ht.find? (Option.some.inj h)
  | cons step path ih =>
    rw [Table.lookup?] at h
    split at h
    · cases h
    · cases h
    · rename_i elements hfind
      split at h
      · cases h
      · rename_i last hlast
        exact ih (bounded_getLast (ht.find? hfind) hlast false false) h
    · rename_i implicit dotted entries hfind
      cases ht.find? hfind with
      | table hentries => exact ih (t := ⟨_, _, _⟩) hentries h

lemma Bounded.insert {path : List String} {v : Value} (ht : t.Bounded) (hv : v.Bounded)
    (h : t.insert path key v = some u) : u.Bounded := by
  refine ht.modify (fun t u ht h => ?_) h
  split at h
  · cases h
  · cases h
    exact ht.set (.value hv)

end Table

/-- The reader yields only values whose integers are in range. -/
def ValueReader.Bounded (value : ValueReader) : Prop :=
  ∀ cs v rest, value cs = some (v, rest) → v.Bounded

variable {value : ValueReader} {cs rest : List Char}

lemma bounded_of_items? (hvalue : value.Bounded) {fuel : Nat} {items : List Value}
    (h : items? value fuel cs = some (items, rest)) : ∀ v ∈ items, v.Bounded := by
  induction fuel generalizing cs items with
  | zero => cases h
  | succ fuel ih =>
    rw [items?] at h
    split at h
    · cases h
      exact fun _ h => absurd h List.not_mem_nil
    · obtain ⟨⟨v, tail⟩, hv, hread⟩ := Option.bind_eq_some_iff.mp h
      dsimp only at hread
      have hv := hvalue _ _ _ hv
      split at hread
      · cases hread
        exact List.forall_mem_singleton.mpr hv
      · obtain ⟨⟨vs, tail'⟩, hvs, hread⟩ := Option.map_eq_some_iff.mp hread
        cases hread
        exact List.forall_mem_cons.mpr ⟨hv, ih hvs⟩
      · cases hread

lemma bounded_of_pair? (hvalue : value.Bounded) {path : List String} {name : String} {v : Value}
    (h : pair? value cs = some ((path, name, v), rest)) : v.Bounded := by
  obtain ⟨⟨names, afterKey⟩, -, h⟩ := Option.bind_eq_some_iff.mp h
  obtain ⟨afterEquals, -, h⟩ := Option.bind_eq_some_iff.mp h
  obtain ⟨⟨w, afterValue⟩, hw, h⟩ := Option.bind_eq_some_iff.mp h
  obtain ⟨last, -, h⟩ := Option.bind_eq_some_iff.mp h
  cases h
  exact hvalue _ _ _ hw

lemma bounded_of_pairs? (hvalue : value.Bounded) {fuel : Nat} {t u : Table} (ht : t.Bounded)
    (h : pairs? value fuel t cs = some (u, rest)) : u.Bounded := by
  induction fuel generalizing cs t with
  | zero => cases h
  | succ fuel ih =>
    rw [pairs?] at h
    obtain ⟨⟨⟨path, name, v⟩, tail⟩, hpair, h⟩ := Option.bind_eq_some_iff.mp h
    obtain ⟨t', hinsert, h⟩ := Option.bind_eq_some_iff.mp h
    have ht' := ht.insert (bounded_of_pair? hvalue hpair) hinsert
    split at h
    · cases h
      exact ht'
    · exact ih ht' h
    · cases h

/-- All integers in a value that is read are in range. -/
lemma bounded_value? (depth : Nat) : ValueReader.Bounded (value? depth) := by
  induction depth with
  | zero => exact fun cs v rest h => bounded_of_scalar? h
  | succ depth ih =>
    intro cs v rest h
    unfold value? at h
    split at h
    · obtain ⟨⟨items, tail⟩, hitems, hread⟩ := Option.map_eq_some_iff.mp h
      cases hread
      exact .array (bounded_of_items? ih hitems)
    · split at h
      · cases h
        exact .table fun _ h => absurd h List.not_mem_nil
      · obtain ⟨⟨t, tail⟩, ht, hread⟩ := Option.map_eq_some_iff.mp h
        cases hread
        exact (bounded_of_pairs? ih Table.bounded_defined ht).toItem.toValue
    · exact bounded_of_scalar? h

namespace Draft

/-- All integers in what was read of a document are in range. -/
structure Bounded (d : Draft) : Prop where
  root : d.root.Bounded
  table : d.table.Bounded

variable {d e : Draft} {t : Table} {path : List String}

lemma bounded_empty : empty.Bounded := ⟨Table.bounded_defined, Table.bounded_defined⟩

lemma Bounded.close (hd : d.Bounded) (h : d.close = some t) : t.Bounded := by
  unfold Draft.close at h
  split at h
  · cases h
    exact hd.table
  · refine hd.root.modify (fun t u ht h => ?_) h
    split at h
    · split at h
      · cases h
        refine ht.set (.tables fun entries hentries => ?_)
        rw [List.mem_singleton.mp hentries]
        exact hd.table
      · rename_i elements hfind
        cases h
        refine ht.set (.tables fun entries hentries => ?_)
        rcases List.mem_append.mp hentries with hentries | hentries
        · cases ht.find? hfind with
          | tables helements => exact helements entries hentries
        · rw [List.mem_singleton.mp hentries]
          exact hd.table
      · cases h
    · split at h
      · cases h
        exact ht.set hd.table.toItem
      · cases h
        exact ht.set hd.table.toItem
      · cases h

lemma Bounded.openTable (hd : d.Bounded) (h : d.openTable path = some e) : e.Bounded := by
  obtain ⟨root, hclose, h⟩ := Option.bind_eq_some_iff.mp h
  obtain ⟨name, -, h⟩ := Option.bind_eq_some_iff.mp h
  obtain ⟨found, hfound, h⟩ := Option.bind_eq_some_iff.mp h
  have hroot := hd.close hclose
  split at h
  · cases h
    exact ⟨hroot, Table.bounded_defined⟩
  · obtain ⟨root', hmodify, h⟩ := Option.bind_eq_some_iff.mp h
    cases h
    constructor
    · refine hroot.modify (fun t u ht h => ?_) hmodify
      cases h
      exact ht.erase name
    · cases hroot.lookup? hfound with
      | table hentries => exact hentries
  · cases h

lemma Bounded.openElement (hd : d.Bounded) (h : d.openElement path = some e) : e.Bounded := by
  obtain ⟨root, hclose, h⟩ := Option.bind_eq_some_iff.mp h
  obtain ⟨name, -, h⟩ := Option.bind_eq_some_iff.mp h
  obtain ⟨found, -, h⟩ := Option.bind_eq_some_iff.mp h
  have hroot := hd.close hclose
  split at h
  · cases h
    exact ⟨hroot, Table.bounded_defined⟩
  · cases h
    exact ⟨hroot, Table.bounded_defined⟩
  · cases h

lemma Bounded.header? (hd : d.Bounded) (h : d.header? cs = some (e, rest)) : e.Bounded := by
  unfold Draft.header? at h
  split at h
  · obtain ⟨_, -, h⟩ := Option.bind_eq_some_iff.mp h
    obtain ⟨_, -, h⟩ := Option.bind_eq_some_iff.mp h
    obtain ⟨_, -, h⟩ := Option.bind_eq_some_iff.mp h
    obtain ⟨_, -, h⟩ := Option.bind_eq_some_iff.mp h
    obtain ⟨e', hopen, h⟩ := Option.bind_eq_some_iff.mp h
    cases h
    exact hd.openElement hopen
  · obtain ⟨_, -, h⟩ := Option.bind_eq_some_iff.mp h
    obtain ⟨_, -, h⟩ := Option.bind_eq_some_iff.mp h
    obtain ⟨_, -, h⟩ := Option.bind_eq_some_iff.mp h
    obtain ⟨e', hopen, h⟩ := Option.bind_eq_some_iff.mp h
    cases h
    exact hd.openTable hopen

lemma Bounded.pairLine? (hd : d.Bounded) (h : d.pairLine? cs = some (e, rest)) : e.Bounded := by
  obtain ⟨⟨⟨path, name, v⟩, tail⟩, hpair, h⟩ := Option.bind_eq_some_iff.mp h
  obtain ⟨_, -, h⟩ := Option.bind_eq_some_iff.mp h
  obtain ⟨table, hinsert, h⟩ := Option.bind_eq_some_iff.mp h
  cases h
  exact ⟨hd.root, hd.table.insert (bounded_of_pair? (bounded_value? maxDepth) hpair) hinsert⟩

lemma Bounded.readLines {fuel : Nat} (hd : d.Bounded) (h : d.readLines fuel cs = some e) :
    e.Bounded := by
  induction fuel generalizing d cs with
  | zero => cases h
  | succ fuel ih =>
    rw [Draft.readLines] at h
    split at h
    · cases h
      exact hd
    · obtain ⟨rest, -, h⟩ := Option.bind_eq_some_iff.mp h
      exact ih hd h
    · exact ih hd h
    · obtain ⟨rest, -, h⟩ := Option.bind_eq_some_iff.mp h
      exact ih hd h
    · obtain ⟨⟨d', rest⟩, hheader, h⟩ := Option.bind_eq_some_iff.mp h
      exact ih (hd.header? hheader) h
    · obtain ⟨⟨d', rest⟩, hline, h⟩ := Option.bind_eq_some_iff.mp h
      exact ih (hd.pairLine? hline) h

end Draft

/-- All integers in a document have 64 bits with their sign. -/
theorem bounded_of_read? {text : List Char} {entries : List (String × Value)}
    (h : read? text = some entries) : (Value.table entries).Bounded := by
  obtain ⟨draft, hread, h⟩ := Option.bind_eq_some_iff.mp h
  obtain ⟨root, hclose, h⟩ := Option.bind_eq_some_iff.mp h
  cases h
  exact ((Draft.bounded_empty.readLines hread).close hclose).toItem.toValue

end SpecLens.Toml
