import Mathlib.Data.List.Nodup
import SpecLens.Proofs.Explorer.Cursor

/-!
# Where the rows of an outline stand

The way to a row holds the indices of the children that lead to it from the top. It names the row
however much is expanded, while the place of the row among the visible ones changes with every
expansion above it.
-/

namespace SpecLens

namespace Branch

/-- The row that a way leads to. -/
def at? : List Nat → Branch → Option Branch
  | [], b => some b
  | i :: way, b => b.children[i]?.bind (at? way)

/-- What a row shows of itself: what it stands for, whether it is expanded, and the number of rows
just below it. -/
def own (b : Branch) : RowItem × Bool × Nat := (b.item, b.expanded, b.children.length)

/-- The site of a row below a child, seen from above. -/
def under (index : Nat) (site : List Nat × Branch) : List Nat × Branch :=
  (index :: site.1, site.2)

mutual

/-- The visible rows at and below a row, each with the way to it. -/
def sites : Branch → List (List Nat × Branch)
  | node item expanded children =>
    ([], node item expanded children) :: if expanded then sitesAll 0 children else []

/-- The same for consecutive children, the first of which has the given index. -/
def sitesAll (index : Nat) : List Branch → List (List Nat × Branch)
  | [] => []
  | b :: rest => (sites b).map (under index) ++ sitesAll (index + 1) rest

end

mutual

lemma rows_eq_sites (depth : Nat) (b : Branch) :
    b.rows depth = b.sites.map fun site => (depth + site.1.length, site.2) := by
  cases b with
  | node item expanded children =>
    rw [rows, sites, List.map_cons]
    cases expanded with
    | false => rfl
    | true => rw [if_pos rfl, if_pos rfl, rowsAll_eq_sitesAll depth 0 children]; rfl

lemma rowsAll_eq_sitesAll (depth index : Nat) (bs : List Branch) :
    rowsAll (depth + 1) bs =
      (sitesAll index bs).map fun site => (depth + site.1.length, site.2) := by
  cases bs with
  | nil => rfl
  | cons b rest =>
    have hunder (site : List Nat × Branch) :
        depth + (under index site).1.length = depth + 1 + site.1.length := by
      rw [under, List.length_cons]
      omega
    rw [rowsAll, sitesAll, List.map_append, List.map_map, rows_eq_sites (depth + 1) b,
      rowsAll_eq_sitesAll depth (index + 1) rest]
    simp only [Function.comp_def, hunder]
    rfl

end

mutual

/-- The way to a visible row leads to it. -/
lemma at?_of_mem_sites {b row : Branch} {way : List Nat} (h : (way, row) ∈ b.sites) :
    b.at? way = some row := by
  cases b with
  | node item expanded children =>
    rw [sites, List.mem_cons] at h
    rcases h with heq | h
    · cases heq
      rfl
    · cases expanded with
      | false => simp at h
      | true =>
        obtain ⟨i, rest, rfl, hrow⟩ := at?_of_mem_sitesAll h
        rwa [Nat.zero_add, at?]

lemma at?_of_mem_sitesAll {bs : List Branch} {row : Branch} {way : List Nat} {index : Nat}
    (h : (way, row) ∈ sitesAll index bs) :
    ∃ i rest, way = (index + i) :: rest ∧ bs[i]?.bind (at? rest) = some row := by
  cases bs with
  | nil => simp [sitesAll] at h
  | cons b bs =>
    rw [sitesAll, List.mem_append, List.mem_map] at h
    rcases h with ⟨⟨rest, row⟩, hsite, heq⟩ | h
    · cases heq
      exact ⟨0, rest, rfl, at?_of_mem_sites hsite⟩
    · obtain ⟨i, rest, rfl, hrow⟩ := at?_of_mem_sitesAll h
      exact ⟨i + 1, rest, by rw [Nat.add_right_comm, Nat.add_assoc], hrow⟩

end

mutual

/-- No two rows have the same way. -/
lemma ways_nodup (b : Branch) : (b.sites.map (·.1)).Nodup := by
  cases b with
  | node item expanded children =>
    rw [sites, List.map_cons, List.nodup_cons]
    cases expanded with
    | false => simp
    | true =>
      refine ⟨?_, waysAll_nodup 0 children⟩
      intro h
      obtain ⟨⟨way, row⟩, hsite, rfl⟩ := List.mem_map.mp h
      obtain ⟨i, rest, hway, -⟩ := at?_of_mem_sitesAll hsite
      cases hway

lemma waysAll_nodup (index : Nat) (bs : List Branch) : ((sitesAll index bs).map (·.1)).Nodup := by
  cases bs with
  | nil => simp [sitesAll]
  | cons b rest =>
    have hunder : ((b.sites.map (under index)).map (·.1)) =
        (b.sites.map (·.1)).map (index :: ·) := by
      simp [under]
    rw [sitesAll, List.map_append, hunder]
    refine ((ways_nodup b).map List.cons_injective).append (waysAll_nodup (index + 1) rest) ?_
    -- The ways on the right start with a greater index.
    intro way hleft hright
    obtain ⟨rest', -, rfl⟩ := List.mem_map.mp hleft
    obtain ⟨⟨way, row⟩, hsite, rfl⟩ := List.mem_map.mp hright
    obtain ⟨i, rest'', hway, -⟩ := at?_of_mem_sitesAll hsite
    have hindex := (List.cons.inj hway).1
    omega

end

lemma length_sites (b : Branch) : b.sites.length = b.visible := by
  rw [← length_rows 0, rows_eq_sites, List.length_map]

end Branch

namespace Outline

/-- The visible rows from top to bottom, each with the way to it. -/
def sites (t : Outline) : List (List Nat × Branch) := (t.root.map Branch.sites).getD []

/-- The row that a way leads to, visible or not. -/
def at? (t : Outline) (way : List Nat) : Option Branch := t.root.bind (Branch.at? way)

/-- The way to the selected row. -/
def selectedWay? (t : Outline) : Option (List Nat) := (t.sites[t.selected]?).map (·.1)

variable {t : Outline} {row : Branch} {way : List Nat}

lemma rows_eq_sites (t : Outline) : t.rows = t.sites.map fun site => (site.1.length, site.2) := by
  unfold rows sites
  cases t.root with
  | none => rfl
  | some b => simp [Branch.rows_eq_sites 0 b]

lemma length_sites (t : Outline) : t.sites.length = t.rows.length := by
  rw [rows_eq_sites, List.length_map]

/-- The cursor of an outline that was built shows a row, whatever moves were made. -/
lemma exists_selected (file : Path) (module : String) (specs : List Spec) (ms : List Move) :
    let t := (build file module specs).moves ms
    ∃ way row, t.sites[t.selected]? = some (way, row) := by
  intro t
  have hfirst : (build file module specs).InBounds := Nat.zero_le _
  have hlt := (hfirst.moves ms).selected_lt (isEmpty_moves _ ms)
  rw [← length_sites] at hlt
  exact ⟨_, _, List.getElem?_eq_getElem hlt⟩

lemma root_of_selected (h : t.sites[t.selected]? = some (way, row)) :
    ∃ b, t.root = some b ∧ b.sites[t.selected]? = some (way, row) := by
  unfold sites at h
  cases hroot : t.root with
  | none => simp [hroot] at h
  | some b => exact ⟨b, rfl, by simpa [hroot] using h⟩

lemma selected_spec (h : t.sites[t.selected]? = some (way, row)) :
    t.rows[t.selected]? = some (way.length, row) ∧ t.at? way = some row ∧
      t.selectedWay? = some way := by
  obtain ⟨b, hroot, hsite⟩ := root_of_selected h
  refine ⟨?_, ?_, ?_⟩
  · rw [rows_eq_sites, List.getElem?_map, h, Option.map_some]
  · rw [at?, hroot, Option.bind_some, Branch.at?_of_mem_sites (List.mem_of_getElem? hsite)]
  · rw [selectedWay?, h, Option.map_some]

lemma ways_nodup (t : Outline) : (t.sites.map (·.1)).Nodup := by
  unfold sites
  cases t.root with
  | none => exact List.nodup_nil
  | some b => exact b.ways_nodup

end Outline

end SpecLens
