import SpecLens.Proofs.Explorer.Position

/-!
# Toggling a row

To toggle a row, the visible rows are counted off down to the cursor. The row that is met is the one
that the cursor shows: it alone changes, and what stands above it on the screen stays there.
-/

namespace SpecLens

namespace Branch

/-- A row in its other state, if there are rows below it. -/
def flip : Branch → Branch
  | node item expanded children =>
    node item (if children.isEmpty then expanded else !expanded) children

/-- Flips the row that a way leads to. -/
def flipAt : List Nat → Branch → Branch
  | [], b => b.flip
  | i :: way, node item expanded children =>
    node item expanded (children.modify i (flipAt way))

variable {b row : Branch} {way other : List Nat} {i index : Nat}

lemma flip_flip (b : Branch) : b.flip.flip = b := by
  cases b with
  | node item expanded children => cases h : children.isEmpty <;> simp [flip, h]

lemma own_flip (b : Branch) : b.flip.own =
    (b.item, if b.hasChildren then !b.expanded else b.expanded, b.children.length) := by
  cases b with
  | node item expanded children =>
    cases h : children.isEmpty <;>
      simp [flip, own, hasChildren, Branch.item, Branch.expanded, Branch.children, h]

lemma flip_of_childless (h : b.hasChildren = false) : b.flip = b := by
  cases b with
  | node item expanded children =>
    have hempty : children.isEmpty = true := by simpa [hasChildren, Branch.children] using h
    rw [flip, if_pos hempty]

lemma own_flipAt_cons (i : Nat) (way : List Nat) (b : Branch) :
    (b.flipAt (i :: way)).own = b.own := by
  cases b with
  | node item expanded children => simp [flipAt, own, Branch.item, Branch.expanded, Branch.children]

lemma children_flipAt_cons (i : Nat) (way : List Nat) (b : Branch) :
    (b.flipAt (i :: way)).children = b.children.modify i (flipAt way) := by
  cases b
  rfl

lemma at?_flipAt (way : List Nat) (b : Branch) :
    (b.flipAt way).at? way = (b.at? way).map flip := by
  induction way generalizing b with
  | nil => rfl
  | cons i way ih =>
    rw [at?, at?, children_flipAt_cons, List.getElem?_modify_eq]
    cases b.children[i]? with
    | none => rfl
    | some c => exact ih c

/-- No other row changes what it shows of itself. -/
lemma own_at?_flipAt (h : other ≠ way) (b : Branch) :
    ((b.flipAt way).at? other).map own = (b.at? other).map own := by
  induction way generalizing b other with
  | nil =>
    cases other with
    | nil => exact absurd rfl h
    | cons j other =>
      cases b
      rfl
  | cons i way ih =>
    cases other with
    | nil => exact congrArg some (own_flipAt_cons i way b)
    | cons j other =>
      rw [at?, at?, children_flipAt_cons]
      by_cases hij : i = j
      · subst hij
        rw [List.getElem?_modify_eq]
        cases b.children[i]? with
        | none => rfl
        | some c => exact ih (fun heq => h (congrArg _ heq)) c
      · rw [List.getElem?_modify_ne _ _ hij]

lemma flipAt_flipAt (way : List Nat) (b : Branch) : (b.flipAt way).flipAt way = b := by
  induction way generalizing b with
  | nil => exact b.flip_flip
  | cons i way ih =>
    cases b with
    | node item expanded children =>
      have hid : flipAt way ∘ flipAt way = id := funext ih
      rw [flipAt, flipAt, List.modify_modify_eq, hid, List.modify_id]

lemma flipAt_of_childless (h : b.at? way = some row) (hrow : row.hasChildren = false) :
    b.flipAt way = b := by
  induction way generalizing b with
  | nil =>
    cases h
    exact flip_of_childless hrow
  | cons i way ih =>
    obtain ⟨c, hc, hrest⟩ := Option.bind_eq_some_iff.mp h
    cases b with
    | node item expanded children =>
      rw [flipAt]
      congr 1
      apply List.ext_getElem?
      intro j
      by_cases hij : i = j
      · subst hij
        rw [List.getElem?_modify_eq, show children[i]? = some c from hc]
        exact congrArg some (ih hrest)
      · rw [List.getElem?_modify_ne _ _ hij]

/-- What is seen of a row: where it stands and what it shows of itself. -/
def mark (site : List Nat × Branch) : List Nat × RowItem × Bool × Nat := (site.1, site.2.own)

/-- A row that is flipped stays where it is, and the rows above it stay as they are. -/
structure Flipped (i : Nat) (way : List Nat) (row : Branch)
    (sites sites' : List (List Nat × Branch)) : Prop where
  row : sites'[i]? = some (way, row.flip)
  above : (sites'.take i).map mark = (sites.take i).map mark

namespace Flipped

variable {sites sites' : List (List Nat × Branch)}

lemma lt (h : Flipped i way row sites sites') : i < sites'.length :=
  (List.getElem?_eq_some_iff.mp h.row).1

lemma map_under (h : Flipped i way row sites sites') (index : Nat) :
    Flipped i (index :: way) row (sites.map (under index)) (sites'.map (under index)) where
  row := by rw [List.getElem?_map, h.row]; rfl
  above := by
    have hmark : mark ∘ under index = (fun m => (index :: m.1, m.2)) ∘ mark := rfl
    rw [← List.map_take, ← List.map_take, List.map_map, List.map_map, hmark, ← List.map_map,
      ← List.map_map, h.above]

lemma append_right (h : Flipped i way row sites sites') (hlt : i < sites.length)
    (below : List (List Nat × Branch)) : Flipped i way row (sites ++ below) (sites' ++ below) where
  row := by rw [List.getElem?_append_left h.lt, h.row]
  above := by
    rw [List.take_append_of_le_length hlt.le, List.take_append_of_le_length h.lt.le, h.above]

lemma append_left (above : List (List Nat × Branch)) (hle : above.length ≤ i)
    (h : Flipped (i - above.length) way row sites sites') :
    Flipped i way row (above ++ sites) (above ++ sites') where
  row := by rw [List.getElem?_append_right hle, h.row]
  above := by
    rw [List.take_append, List.take_append, List.map_append, List.map_append, h.above]

end Flipped

mutual

/-- The row that is met at the end of the count is the visible one with that number. -/
lemma toggleAt_eq {i : Nat} {way : List Nat} {b row : Branch}
    (h : b.sites[i]? = some (way, row)) :
    b.toggleAt i = b.flipAt way ∧ Flipped i way row b.sites (b.flipAt way).sites := by
  cases b with
  | node item expanded children =>
    rw [sites] at h ⊢
    cases i with
    | zero =>
      cases h
      exact ⟨rfl, rfl, rfl⟩
    | succ i =>
      rw [List.getElem?_cons_succ] at h
      cases expanded with
      | false => simp at h
      | true =>
        obtain ⟨j, rest, rfl, htoggle, hflipped⟩ := toggleAmong_eq h
        rw [Nat.zero_add] at hflipped ⊢
        refine ⟨congrArg (node item true) htoggle, ?_, ?_⟩
        · rw [flipAt, sites, List.getElem?_cons_succ]
          exact hflipped.row
        · rw [flipAt, sites, List.take_succ_cons, List.take_succ_cons, List.map_cons, List.map_cons]
          refine congrArg₂ _ ?_ hflipped.above
          exact congrArg (([], ·)) (own_flipAt_cons j rest (node item true children))

lemma toggleAmong_eq {i index : Nat} {way : List Nat} {bs : List Branch} {row : Branch}
    (h : (sitesAll index bs)[i]? = some (way, row)) :
    ∃ j rest, way = (index + j) :: rest ∧ toggleAmong i bs = bs.modify j (flipAt rest) ∧
      Flipped i way row (sitesAll index bs) (sitesAll index (bs.modify j (flipAt rest))) := by
  cases bs with
  | nil => simp [sitesAll] at h
  | cons b bs =>
    rw [sitesAll] at h ⊢
    by_cases hlt : i < b.sites.length
    · rw [List.getElem?_append_left (by simpa using hlt), List.getElem?_map] at h
      obtain ⟨⟨rest, row⟩, hsite, heq⟩ := Option.map_eq_some_iff.mp h
      cases heq
      obtain ⟨htoggle, hflipped⟩ := toggleAt_eq hsite
      refine ⟨0, rest, rfl, ?_, ?_⟩
      · rw [toggleAmong, if_pos (b.length_sites ▸ hlt), htoggle, List.modify_zero_cons]
      · rw [List.modify_zero_cons, sitesAll]
        exact (hflipped.map_under index).append_right (by simpa using hlt) _
    · rw [List.getElem?_append_right (by simpa using hlt), List.length_map] at h
      obtain ⟨j, rest, rfl, htoggle, hflipped⟩ := toggleAmong_eq h
      refine ⟨j + 1, rest, ?_, ?_, ?_⟩
      · rw [Nat.add_right_comm, Nat.add_assoc]
      · rw [toggleAmong, if_neg (b.length_sites ▸ hlt), List.modify_succ_cons, ← b.length_sites,
          htoggle]
      · rw [List.modify_succ_cons, sitesAll]
        exact .append_left _ (by simpa using hlt) (by simpa using hflipped)

end

end Branch

namespace Outline

variable {t : Outline} {row : Branch} {way : List Nat}

/-- The cursor need not move when a row is toggled. -/
lemma toggleSelected_eq (h : t.sites[t.selected]? = some (way, row)) :
    t.toggleSelected = ⟨t.root.map (Branch.flipAt way), t.selected⟩ := by
  obtain ⟨b, hroot, hsite⟩ := root_of_selected h
  obtain ⟨htoggle, hflipped⟩ := Branch.toggleAt_eq hsite
  have hlt : t.selected < (⟨some (b.flipAt way), t.selected⟩ : Outline).rows.length := by
    rw [← length_sites]
    exact hflipped.lt
  unfold toggleSelected select
  simp only [hroot, Option.map_some, htoggle, Nat.min_eq_left (Nat.le_sub_one_of_lt hlt)]

/-- Toggling changes the selected row alone: it is collapsed or expanded if there are rows below it.
The cursor stays, the selected row and the rows above it stay where they are, and toggling again
gives the outline back. -/
theorem toggleSelected_flips_selected (file : Path) (module : String) (specs : List Spec)
    (ms : List Move) :
    let t := (build file module specs).moves ms
    let u := t.toggleSelected
    ∃ way row, t.rows[t.selected]? = some (way.length, row) ∧ t.at? way = some row ∧
      t.selectedWay? = some way ∧
      (u.at? way).map Branch.own = some (row.item,
        if row.hasChildren then !row.expanded else row.expanded, row.children.length) ∧
      (∀ other ≠ way, (u.at? other).map Branch.own = (t.at? other).map Branch.own) ∧
      (row.hasChildren = false → u = t) ∧
      u.selected = t.selected ∧ u.selectedWay? = some way ∧
      (u.sites.take t.selected).map Branch.mark = (t.sites.take t.selected).map Branch.mark ∧
      u.toggleSelected = t := by
  intro t u
  obtain ⟨way, row, hsite⟩ := exists_selected file module specs ms
  obtain ⟨hshown, hat, hway⟩ := selected_spec hsite
  obtain ⟨b, hroot, hsite'⟩ := root_of_selected hsite
  obtain ⟨-, hflipped⟩ := Branch.toggleAt_eq hsite'
  have ht : t.root = some b := hroot
  have hrow' : b.at? way = some row := by rwa [at?, ht, Option.bind_some] at hat
  have hu : u = ⟨some (b.flipAt way), t.selected⟩ := by
    rw [← Option.map_some, ← hroot]
    exact toggleSelected_eq hsite
  have hrow : u.sites[u.selected]? = some (way, row.flip) := by
    rw [hu]
    exact hflipped.row
  refine ⟨way, row, hshown, hat, hway, ?_, fun other hne => ?_, fun hchildless => ?_, ?_, ?_, ?_,
    ?_⟩
  · rw [hu, at?, Option.bind_some, Branch.at?_flipAt, hrow', Option.map_some, Option.map_some,
      Branch.own_flip]
  · rw [hu, at?, at?, ht, Option.bind_some, Option.bind_some, Branch.own_at?_flipAt hne]
  · rw [hu, Branch.flipAt_of_childless hrow' hchildless, ← ht]
  · rw [hu]
  · rw [selectedWay?, hrow, Option.map_some]
  · rw [hu, sites, sites, ht]
    exact hflipped.above
  · rw [toggleSelected_eq hrow, hu, Option.map_some, Branch.flipAt_flipAt, ← ht]

end Outline

end SpecLens
