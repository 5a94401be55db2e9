import Mathlib.Data.List.Basic
import Mathlib.Tactic.Lemma
import SpecLens.Proofs.Disk.Reading

/-!
# Names along paths

A path that is written down from names has just these names as its components. Seen from a
directory, what lies below it is written with the names that follow those of the directory.
-/

namespace SpecLens

namespace Text

variable {sep : Char}

lemma splitAt_inj {cs cs' : List Char} : splitAt sep cs = splitAt sep cs' ↔ cs = cs' := by
  refine ⟨fun h => ?_, fun h => by rw [h]⟩
  rw [← intercalate_splitAt sep cs, h, intercalate_splitAt]

lemma splitAt_append (sep : Char) (before after : List Char) :
    splitAt sep (before ++ sep :: after) = splitAt sep before ++ splitAt sep after := by
  induction before with
  | nil => simp [splitAt]
  | cons c before ih =>
    rw [List.cons_append, splitAt, splitAt, ih]
    by_cases hsep : c = sep
    · simp [hsep]
    · cases hparts : splitAt sep before with
      | nil => exact absurd hparts (splitAt_ne_nil sep before)
      | cons part parts => simp [hsep]

/-- Joined texts are split where they are joined and where they would be split by themselves. -/
lemma splitAt_intercalate {parts : List (List Char)} (h : parts ≠ []) :
    splitAt sep ([sep].intercalate parts) = parts.flatMap (splitAt sep) := by
  induction parts with
  | nil => exact absurd rfl h
  | cons part parts ih =>
    cases parts with
    | nil => simp
    | cons next parts =>
      rw [List.intercalate_cons_cons, List.append_assoc, List.singleton_append, splitAt_append,
        ih (by simp), ← List.flatMap_cons]

lemma flatMap_splitAt {parts : List (List Char)} (h : ∀ part ∈ parts, sep ∉ part) :
    parts.flatMap (splitAt sep) = parts := by
  induction parts with
  | nil => rfl
  | cons part parts ih =>
    rw [List.forall_mem_cons] at h
    rw [List.flatMap_cons, splitAt_of_not_mem h.1, ih h.2, List.singleton_append]

lemma not_mem_of_mem_splitAt {part cs : List Char} (h : part ∈ splitAt sep cs) : sep ∉ part := by
  induction cs generalizing part with
  | nil =>
    rw [splitAt, List.mem_singleton] at h
    simp [h]
  | cons c cs ih =>
    rw [splitAt] at h
    split at h
    · rcases List.mem_cons.mp h with rfl | h
      · simp
      · exact ih h
    · rename_i hc
      cases hparts : splitAt sep cs with
      | nil => exact absurd hparts (splitAt_ne_nil sep cs)
      | cons first rest =>
        simp only [hparts] at h ih
        rcases List.mem_cons.mp h with rfl | h
        · have hfirst : sep ∉ first := ih (by simp)
          simp [hfirst, Ne.symm hc]
        · exact ih (List.mem_cons_of_mem _ h)

end Text

open Text

namespace Path

/-- Whether a text can be the name of a file or directory. -/
def IsName (text : String) : Prop := text ∉ ["", ".", ".."] ∧ '/' ∉ text.toList

instance (text : String) : Decidable (IsName text) :=
  inferInstanceAs (Decidable (_ ∧ _))

lemma IsName.component? {text : String} (h : IsName text) :
    Path.component? text.toList = some (.name text) := by
  have hne (other : String) (hother : other ∈ ["", ".", ".."]) : text.toList ≠ other.toList := by
    intro heq
    rw [String.toList_inj.mp heq] at h
    exact h.1 hother
  have hempty : text.toList ≠ [] := hne "" (by simp)
  have hhere : text.toList ≠ ['.'] := hne "." (by simp)
  have hup : text.toList ≠ ['.', '.'] := hne ".." (by simp)
  simp [Path.component?, hempty, hhere, hup]

lemma isName_of_component? {segment : List Char} {text : String} (hslash : '/' ∉ segment)
    (h : component? segment = some (.name text)) : IsName text := by
  unfold component? at h
  split at h
  · cases h
  · rename_i hblank
    split at h
    · cases h
    · rename_i hup
      cases h
      have hne (other : String) (hother : segment ≠ other.toList) :
          String.ofList segment ≠ other := by
        rintro rfl
        simp at hother
      refine ⟨?_, by simpa using hslash⟩
      simp only [List.mem_cons, List.not_mem_nil, or_false, not_or]
      exact ⟨hne "" fun heq => hblank (.inl heq), hne "." fun heq => hblank (.inr heq), hne ".." hup⟩

variable {names base below : List String}

@[simp] lemma toList_ofNames : (ofNames names).text.toList =
    '/' :: ['/'].intercalate (names.map String.toList) := by
  simp [ofNames, String.toList_intercalate]

@[simp] lemma isAbsolute_ofNames : (ofNames names).isAbsolute = true := by
  simp [isAbsolute]

lemma splitAt_names (h : ∀ n ∈ names, IsName n) (hne : names ≠ []) :
    splitAt '/' (['/'].intercalate (names.map String.toList)) = names.map String.toList := by
  rw [splitAt_intercalate (by simpa using hne), flatMap_splitAt]
  intro part hpart
  obtain ⟨name, hname, rfl⟩ := List.mem_map.mp hpart
  exact (h name hname).2

lemma segments_ofNames (h : ∀ n ∈ names, IsName n) :
    (ofNames names).segments = [] :: if names = [] then [[]] else names.map String.toList := by
  rw [segments, toList_ofNames, splitAt, if_pos rfl]
  split
  · rename_i hnil
    simp [hnil, splitAt]
  · rename_i hne
    rw [splitAt_names h hne]

lemma filterMap_component? (h : ∀ n ∈ names, IsName n) :
    (names.map String.toList).filterMap component? = names.map .name := by
  rw [List.filterMap_map, ← List.filterMap_eq_map]
  exact List.filterMap_congr fun name hname => (h name hname).component?

lemma components_ofNames (h : ∀ n ∈ names, IsName n) :
    (ofNames names).components = .root :: names.map .name := by
  rw [components, segments_ofNames h, isAbsolute_ofNames]
  by_cases hnil : names = []
  · simp [hnil, firstComponent?, component?]
  · simp only [hnil, if_false, firstComponent?, if_true, filterMap_component? h]
    rfl

lemma fileName?_ofNames (h : ∀ n ∈ names, IsName n) : (ofNames names).fileName? = names.getLast? := by
  rw [fileName?, components_ofNames h, List.getLast?_cons, List.getLast?_map]
  cases names.getLast? <;> rfl

lemma dropComponents_append (h : ∀ n ∈ names, IsName n) (segments : List (List Char)) :
    dropComponents names.length (names.map String.toList ++ segments) = segments := by
  induction names with
  | nil => simp [dropComponents]
  | cons name names ih =>
    rw [List.forall_mem_cons] at h
    simp [dropComponents, h.1.component?, ih h.2]

/-- What lies below a directory, as seen from it. -/
lemma relativeTo?_ofNames (h : ∀ n ∈ base ++ below, IsName n) :
    (ofNames (base ++ below)).relativeTo? (ofNames base) = some ⟨"/".intercalate below⟩ := by
  obtain ⟨hbase, hbelow⟩ := List.forall_mem_append.mp h
  have hstart : (ofNames (base ++ below)).startsWith (ofNames base) = true := by
    simp [startsWith, components_ofNames h, components_ofNames hbase]
  have hdrop : ((dropComponents base.length (ofNames (base ++ below)).segments.tail).dropWhile
      fun s => (component? s).isNone) = below.map String.toList := by
    rw [segments_ofNames h, List.tail_cons]
    cases below with
    | nil =>
      cases base with
      | nil => rfl
      | cons name base =>
        have hall : dropComponents (name :: base).length ((name :: base).map String.toList) = [] := by
          simpa using dropComponents_append hbase []
        rw [List.append_nil, if_neg (by simp), hall]
        rfl
    | cons name below =>
      have hname := (hbelow name (by simp)).component?
      rw [if_neg (by simp), List.map_append, dropComponents_append hbase, List.map_cons,
        List.dropWhile_cons_of_neg (by simp [hname])]
  have htrim : dropWhileEnd (fun s => (component? s).isNone) (below.map String.toList) =
      below.map String.toList := by
    rw [dropWhileEnd, List.reverse_eq_iff]
    cases hlast : (below.map String.toList).reverse with
    | nil => rfl
    | cons segment rest =>
      have hmem : segment ∈ below.map String.toList := by
        rw [← List.mem_reverse, hlast]
        exact List.mem_cons_self
      obtain ⟨name, hname, rfl⟩ := List.mem_map.mp hmem
      exact List.dropWhile_cons_of_neg (by simp [(hbelow name hname).component?])
  have htext : String.ofList (['/'].intercalate (below.map String.toList)) =
      "/".intercalate below := by
    rw [← String.toList_inj, String.toList_ofList, String.toList_intercalate]
    rfl
  rw [relativeTo?, hstart, isAbsolute_ofNames, components_ofNames hbase]
  simp only [Bool.and_self, if_true, List.length_cons, List.length_map, Nat.add_sub_cancel, hdrop,
    htrim, htext]

end Path

open SpecLens.Path

namespace Disk

variable {d : Disk}

/-- A disk on which everything stands under proper names. -/
structure WellNamed (d : Disk) : Prop where
  entries : ∀ e ∈ d.entries, ∀ n ∈ e.1, IsName n
  here : ∀ n ∈ d.here, IsName n

lemma isName_of_mem_lead {names : List String} {segment : List Char} (hslash : '/' ∉ segment)
    (h : ∀ n ∈ names, IsName n) : ∀ n ∈ lead names segment, IsName n := by
  unfold lead
  intro n hn
  split at hn
  · exact h n (List.dropLast_subset names hn)
  · rename_i text htext
    rcases List.mem_append.mp hn with hn | hn
    · exact h n hn
    · rw [List.mem_singleton.mp hn]
      exact isName_of_component? hslash htext
  · exact h n hn

/-- A path leads to proper names. -/
lemma WellNamed.resolve {p : Path} {names : List String} (hd : d.WellNamed)
    (h : d.resolve p = .ok names) : ∀ n ∈ names, IsName n := by
  unfold Disk.resolve at h
  cases horigin : d.origin p with
  | error e => simp [horigin, bind, Except.bind] at h
  | ok start =>
    have hstart : ∀ n ∈ start, IsName n := by
      unfold origin at horigin
      split at horigin
      · cases horigin
      · split at horigin
        · cases horigin
        · cases horigin
          split
          · simp
          · exact hd.here
    have hnames : names = p.segments.foldl lead start :=
      foldlM_step_eq_ok (by simpa [horigin, bind, Except.bind] using h)
    rw [hnames]
    refine List.foldlRecOn (motive := fun names => ∀ n ∈ names, IsName n) p.segments lead hstart
      fun names hnames segment hsegment => ?_
    exact isName_of_mem_lead (not_mem_of_mem_splitAt hsegment) hnames

/-- A walk stays below the directory it starts from. -/
lemma WellNamed.walk {env : Environment} {excluded base names : List String} (hd : d.WellNamed)
    (h : names ∈ d.walk env excluded base) : ∃ below, names = base ++ below ∧
      ∀ n ∈ below, IsName n := by
  rcases List.mem_cons.mp h with rfl | h
  · exact ⟨[], by simp⟩
  · obtain ⟨hentry, hreached⟩ := List.mem_filter.mp h
    obtain ⟨e, he, rfl⟩ := List.mem_map.mp hentry
    simp only [isReached, Bool.and_eq_true] at hreached
    obtain ⟨below, hbelow⟩ := List.isPrefixOf_iff_prefix.mp hreached.2.1
    refine ⟨below, hbelow.symm, fun n hn => hd.entries e he n ?_⟩
    rw [← hbelow]
    exact List.mem_append_right _ hn

end Disk

end SpecLens
