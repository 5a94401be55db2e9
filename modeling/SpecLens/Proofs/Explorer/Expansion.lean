import SpecLens.Proofs.Explorer.Position
import SpecLens.Proofs.Explorer.Request

/-!
# Expanding all rows

Once every row is expanded, the rows that were hidden stand behind the row that hid them. A row
comes to stand as many rows further down as were hidden above it. The cursor keeps its number, so it
is still on the row that was selected if and only if none were.
-/

namespace SpecLens

namespace Branch

/-- The number of rows that a row hides. -/
def hidden (b : Branch) : Nat := if b.expanded then 0 else sizeAll b.children

/-- The number of rows that some rows hide. -/
def hiddenAmong : List (Nat × Branch) → Nat
  | [] => 0
  | row :: rows => row.2.hidden + hiddenAmong rows

/-- A row with the rows that it hides, once everything is expanded. -/
def reveal (site : List Nat × Branch) : List (List Nat × Branch) :=
  if site.2.expanded then [(site.1, site.2.setExpanded true)]
  else (site.2.setExpanded true).sites.map fun below => (site.1 ++ below.1, below.2)

mutual

lemma visible_setExpanded (b : Branch) : (b.setExpanded true).visible = b.size := by
  cases b with
  | node item expanded children =>
    rw [setExpanded, visible, size, if_pos rfl, visibleAll_setExpandedAll children]

lemma visibleAll_setExpandedAll (bs : List Branch) :
    visibleAll (setExpandedAll true bs) = sizeAll bs := by
  cases bs with
  | nil => rfl
  | cons b rest =>
    rw [setExpandedAll, visibleAll, sizeAll, visible_setExpanded b, visibleAll_setExpandedAll rest]

end

lemma length_reveal (site : List Nat × Branch) : (reveal site).length = 1 + site.2.hidden := by
  obtain ⟨way, item, expanded, children⟩ := site
  cases expanded with
  | true => rfl
  | false =>
    rw [reveal, if_neg (by simp [Branch.expanded]), List.length_map, length_sites,
      visible_setExpanded]
    rfl

lemma head?_reveal (site : List Nat × Branch) :
    (reveal site).head? = some (site.1, site.2.setExpanded true) := by
  obtain ⟨way, item, expanded, children⟩ := site
  cases expanded with
  | true => rfl
  | false => simp [reveal, Branch.expanded, setExpanded, sites]

lemma reveal_under (index : Nat) (site : List Nat × Branch) :
    reveal (under index site) = (reveal site).map (under index) := by
  unfold reveal
  split <;> simp_all [under]

mutual

lemma sites_setExpanded (b : Branch) : (b.setExpanded true).sites = b.sites.flatMap reveal := by
  cases b with
  | node item expanded children =>
    rw [sites.eq_def (node item expanded children)]
    cases expanded with
    | false => simp [reveal, Branch.expanded]
    | true =>
      dsimp only
      rw [if_pos rfl, List.flatMap_cons, ← sitesAll_setExpandedAll 0 children]
      rfl

lemma sitesAll_setExpandedAll (index : Nat) (bs : List Branch) :
    sitesAll index (setExpandedAll true bs) = (sitesAll index bs).flatMap reveal := by
  cases bs with
  | nil => rfl
  | cons b rest =>
    rw [setExpandedAll, sitesAll, sitesAll, List.flatMap_append, List.flatMap_map,
      sites_setExpanded b, sitesAll_setExpandedAll (index + 1) rest, List.map_flatMap]
    simp only [reveal_under]

end

lemma sizeAll_eq_zero_iff {bs : List Branch} : sizeAll bs = 0 ↔ bs = [] := by
  cases bs with
  | nil => simp [sizeAll]
  | cons b rest =>
    cases b
    simp [sizeAll, size]

lemma hidden_eq_zero_iff {b : Branch} :
    b.hidden = 0 ↔ (b.hasChildren = true → b.expanded = true) := by
  unfold hidden hasChildren
  split
  · simp_all
  · simp_all [sizeAll_eq_zero_iff]

lemma hiddenAmong_eq_zero_iff {rows : List (Nat × Branch)} : hiddenAmong rows = 0 ↔
    ∀ row ∈ rows, row.2.hasChildren = true → row.2.expanded = true := by
  induction rows with
  | nil => simp [hiddenAmong]
  | cons row rows ih =>
    rw [hiddenAmong, Nat.add_eq_zero_iff, hidden_eq_zero_iff, ih, List.forall_mem_cons]

lemma length_flatMap_reveal (sites : List (List Nat × Branch)) :
    (sites.flatMap reveal).length =
      sites.length + hiddenAmong (sites.map fun site => (site.1.length, site.2)) := by
  induction sites with
  | nil => rfl
  | cons site sites ih =>
    rw [List.flatMap_cons, List.length_append, length_reveal, ih, List.length_cons, List.map_cons,
      hiddenAmong]
    dsimp only
    omega

end Branch

/-- Each element of a list leads its own part where every element stands for several. -/
lemma getElem?_flatMap_head {α β : Type} {f : α → List β} {l : List α} {i : Nat} {a : α} {b : β}
    (h : l[i]? = some a) (hb : (f a).head? = some b) :
    (l.flatMap f)[((l.take i).flatMap f).length]? = some b := by
  obtain ⟨hlt, rfl⟩ := List.getElem?_eq_some_iff.mp h
  obtain ⟨rest, hrest⟩ := List.head?_eq_some_iff.mp hb
  have hsplit : l.flatMap f = (l.take i).flatMap f ++ (f l[i] ++ (l.drop (i + 1)).flatMap f) := by
    rw [← List.flatMap_cons, ← List.drop_eq_getElem_cons hlt, ← List.flatMap_append,
      List.take_append_drop]
  rw [hsplit, List.getElem?_append_right le_rfl, Nat.sub_self, hrest]
  rfl

namespace Outline

/-- The number of rows that are hidden above the cursor. -/
def hiddenAbove (t : Outline) : Nat := Branch.hiddenAmong (t.rows.take t.selected)

variable {t : Outline} {row : Branch} {way : List Nat}

lemma sites_expandAll (t : Outline) : t.expandAll.sites = t.sites.flatMap Branch.reveal := by
  unfold sites expandAll
  cases t.root with
  | none => rfl
  | some b => exact b.sites_setExpanded

lemma length_revealed (h : t.selected < t.sites.length) :
    ((t.sites.take t.selected).flatMap Branch.reveal).length = t.selected + t.hiddenAbove := by
  rw [Branch.length_flatMap_reveal, List.length_take_of_le h.le, hiddenAbove, rows_eq_sites,
    List.map_take]

/-- The selected row moves down by the number of rows that are hidden above it. -/
lemma sites_expandAll_selected (h : t.sites[t.selected]? = some (way, row)) :
    t.expandAll.sites[t.selected + t.hiddenAbove]? = some (way, row.setExpanded true) := by
  obtain ⟨hlt, -⟩ := List.getElem?_eq_some_iff.mp h
  rw [sites_expandAll, ← length_revealed hlt]
  exact getElem?_flatMap_head h (Branch.head?_reveal (way, row))

lemma selectedWay?_expandAll_iff (h : t.sites[t.selected]? = some (way, row)) :
    t.expandAll.selectedWay? = some way ↔ t.hiddenAbove = 0 := by
  have hmoved := sites_expandAll_selected h
  have hselected : t.expandAll.selectedWay? = (t.expandAll.sites[t.selected]?).map (·.1) := rfl
  rw [hselected]
  constructor
  · intro hway
    obtain ⟨hlt, -⟩ := List.getElem?_eq_some_iff.mp hmoved
    rw [← List.getElem?_map] at hway
    have hway' : (t.expandAll.sites.map (·.1))[t.selected + t.hiddenAbove]? = some way := by
      rw [List.getElem?_map, hmoved, Option.map_some]
    have hindex := (List.getElem?_inj (by simpa using hlt) t.expandAll.ways_nodup).mp
      (hway'.trans hway.symm)
    omega
  · intro hzero
    rw [hzero, Nat.add_zero] at hmoved
    rw [hmoved, Option.map_some]

/-- What the selected row stands for does not change where no rows are hidden above it. -/
lemma selectedItem_expandAll (h : t.sites[t.selected]? = some (way, row))
    (hzero : t.hiddenAbove = 0) :
    t.expandAll.selectedRow?.map Branch.item = t.selectedRow?.map Branch.item := by
  have hmoved := sites_expandAll_selected h
  rw [hzero, Nat.add_zero] at hmoved
  have hselected : t.expandAll.selected = t.selected := rfl
  rw [selectedRow?, selectedRow?, rows_eq_sites, rows_eq_sites, List.getElem?_map,
    List.getElem?_map, hselected, hmoved, h]
  exact congrArg some (Branch.item_setExpanded true row)

end Outline

lemma Explorer.runSelected_expandAll {e : Explorer}
    (h : e.outline.expandAll.selectedRow?.map Branch.item = e.outline.selectedRow?.map Branch.item)
    (mode : RunMode) : (e.mapOutline .expandAll).runSelected mode = e.runSelected mode := by
  have hitem (row? : Option Branch) (file : Option Path) :
      (row?.bind fun row => row.item.request? mode file) =
        (row?.map Branch.item).bind (·.request? mode file) := by
    rw [Option.bind_map]
    rfl
  rw [runSelected_eq, runSelected_eq, hitem, hitem]
  exact congrArg (Option.bind · _) h

namespace Outline

/-- The cursor keeps its number when all rows are expanded, while the row that was selected moves
down by the number of rows hidden above it. So this row stays selected if and only if every row
above it that has rows below it is expanded already, and then the same is run. -/
theorem expandAll_keeps_selected_iff (file : Path) (module : String) (specs : List Spec)
    (ms : List Move) :
    let t := (build file module specs).moves ms
    ∃ way row, t.rows[t.selected]? = some (way.length, row) ∧ t.at? way = some row ∧
      t.selectedWay? = some way ∧ t.expandAll.selected = t.selected ∧
      (t.expandAll.sites[t.selected + t.hiddenAbove]?).map (·.1) = some way ∧
      (t.expandAll.selectedWay? = some way ↔
        ∀ above ∈ t.rows.take t.selected, above.2.hasChildren = true → above.2.expanded = true) ∧
      (t.expandAll.selectedWay? = some way → ∀ (e : Explorer) (mode : RunMode), e.outline = t →
        (e.mapOutline expandAll).runSelected mode = e.runSelected mode) := by
  intro t
  obtain ⟨way, row, hsite⟩ := exists_selected file module specs ms
  obtain ⟨hrow, hat, hway⟩ := selected_spec hsite
  refine ⟨way, row, hrow, hat, hway, rfl, ?_, ?_, ?_⟩
  · rw [sites_expandAll_selected hsite, Option.map_some]
  · rw [selectedWay?_expandAll_iff hsite, hiddenAbove, Branch.hiddenAmong_eq_zero_iff]
  · intro hkept e mode houtline
    apply Explorer.runSelected_expandAll
    rw [houtline]
    exact selectedItem_expandAll hsite ((selectedWay?_expandAll_iff hsite).mp hkept)

/-- A spec without tests. -/
def emptySpec : Spec := { containerSpec with name := "T", fqn := "T", tests := [] }

/-- Where a collapsed spec hides a container with a test above the selected spec, the container
comes under the cursor, and it is run. -/
theorem selected_spec_displaced :
    let t := (build ⟨"/p/A.kt"⟩ "p" [containerSpec, emptySpec]).moves
      [.select 2, .toggle, .select 3]
    let e := { Explorer.init Explorer.oneFileProject (.ofConfig .standard) .standard with
      outline := t }
    t.selectedWay? = some [0, 1] ∧ t.expandAll.selectedWay? = some [0, 0, 0] ∧
      (e.runSelected .run).map (·.specFqn) = some "T" ∧
      ((e.mapOutline expandAll).runSelected .run).map (·.specFqn) = some "S" := by
  decide +kernel

end Outline

end SpecLens
