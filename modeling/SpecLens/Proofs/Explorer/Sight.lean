import SpecLens.Proofs.Explorer.Contents

/-!
# Where the rows come from

The rows that an explorer shows are those of one file as the world was at one time, or there are
none. This file follows through a run which file that is and when it was read.
-/

namespace SpecLens.Explorer

variable {e : Explorer} {w : World}

/-- The file whose rows a refresh draws, none without a selected one; it draws nothing if it has to
wait. -/
def refreshed? (e : Explorer) (w : World) : Option (Option Path) :=
  match e.selectedFile with
  | none => some none
  | some file =>
    if e.gate.indexing && (e.project.moduleOf? w.disk file).isSome then none else some (some file)

/-- The same for any event. -/
def drawn? (e : Explorer) (w : World) : Event → Option (Option Path)
  | .beginIndexing => none
  | .indexingFinished => e.gate.queue.getLast?.map some
  | .select file => { e with selectedFile := file }.refreshed? w
  | .filesChanged changed =>
    match e.selectedFile with
    | none => none
    | some file => if changed.any (·.fileName? == file.fileName?) then e.refreshed? w else none
  | .refresh => e.refreshed? w
  | .move _ => none

/-- What an explorer shows: the rows of a file as the world was at some time. -/
structure Sight where
  world : World
  file : Path

/-- The rows that a sight shows, none without one. -/
def rowsOf (e : Explorer) (sight : Option Sight) : List (Nat × RowItem) :=
  match sight with
  | none => []
  | some s => (e.outlineOf s.world s.file).contents

/-- What an explorer shows after an event. -/
def look (e : Explorer) (w : World) (event : Event) (sight : Option Sight) : Option Sight :=
  match e.drawn? w event with
  | none => sight
  | some file => file.map (⟨w, ·⟩)

/-- What an explorer shows after a run. -/
def sightAfter (e : Explorer) (sight : Option Sight) : List (World × Event) → Option Sight
  | [] => sight
  | (w, event) :: rest => (e.handle w event).sightAfter (e.look w event sight) rest

/-- The parts of an explorer that no event changes. -/
def SameSetting (e f : Explorer) : Prop :=
  e.project = f.project ∧ e.discovery = f.discovery ∧ e.startsExpanded = f.startsExpanded

lemma refresh_sameSetting (e : Explorer) (w : World) : (e.refresh w).SameSetting e := by
  unfold refresh
  split
  · exact ⟨rfl, rfl, rfl⟩
  · split
    · exact ⟨rfl, rfl, rfl⟩
    · unfold Gate.submit
      cases e.gate.indexing <;> exact ⟨rfl, rfl, rfl⟩

lemma handle_sameSetting (e : Explorer) (w : World) (event : Event) :
    (e.handle w event).SameSetting e := by
  cases event with
  | beginIndexing => exact ⟨rfl, rfl, rfl⟩
  | indexingFinished =>
    rw [handle, indexingFinished_eq]
    split <;> exact ⟨rfl, rfl, rfl⟩
  | select file => exact refresh_sameSetting _ w
  | filesChanged changed =>
    rw [handle, filesChanged]
    split
    · exact ⟨rfl, rfl, rfl⟩
    · split
      · exact refresh_sameSetting e w
      · exact ⟨rfl, rfl, rfl⟩
  | refresh => exact refresh_sameSetting e w
  | move m => exact ⟨rfl, rfl, rfl⟩

lemma run_sameSetting (e : Explorer) (events : List (World × Event)) :
    (e.run events).SameSetting e := by
  induction events generalizing e with
  | nil => exact ⟨rfl, rfl, rfl⟩
  | cons step rest ih =>
    obtain ⟨hproject, hdiscovery, hexpanded⟩ := ih (e.handle step.1 step.2)
    obtain ⟨hproject', hdiscovery', hexpanded'⟩ := handle_sameSetting e step.1 step.2
    exact ⟨hproject.trans hproject', hdiscovery.trans hdiscovery', hexpanded.trans hexpanded'⟩

lemma rowsOf_congr {f : Explorer} (h : e.SameSetting f) (sight : Option Sight) :
    e.rowsOf sight = f.rowsOf sight := by
  obtain ⟨hproject, hdiscovery, hexpanded⟩ := h
  unfold rowsOf outlineOf
  rw [hproject, hdiscovery, hexpanded]

lemma selectedFile_refresh (e : Explorer) (w : World) :
    (e.refresh w).selectedFile = e.selectedFile := by
  unfold refresh
  split
  · rfl
  · split
    · rfl
    · unfold Gate.submit
      cases e.gate.indexing <;> rfl

lemma contents_refresh (e : Explorer) (w : World) :
    (e.refresh w).outline.contents =
      match e.refreshed? w with
      | none => e.outline.contents
      | some file => e.rowsOf (file.map (⟨w, ·⟩)) := by
  unfold refresh refreshed?
  cases e.selectedFile with
  | none => rfl
  | some file =>
    dsimp only
    cases hmodule : e.project.moduleOf? w.disk file with
    | none =>
      have hrows : e.rowsOf (some ⟨w, file⟩) = [] := by
        rw [rowsOf, contents_outlineOf, hmodule]
      simp only [Option.isNone_none, Option.isSome_none, Bool.and_false, if_pos, Bool.false_eq_true,
        if_false]
      exact hrows.symm
    | some m =>
      unfold Gate.submit
      cases e.gate.indexing <;> rfl

lemma contents_refresh_of_idle (h : e.gate.indexing = false) :
    (e.refresh w).outline.contents = e.rowsOf (e.selectedFile.map (⟨w, ·⟩)) := by
  rw [contents_refresh, refreshed?]
  cases e.selectedFile with
  | none => rfl
  | some file => simp [h]

/-- An event leaves the rows that are shown as they are or shows those of a file as it is now. -/
lemma contents_handle {sight : Option Sight} (h : e.outline.contents = e.rowsOf sight)
    (event : Event) : (e.handle w event).outline.contents =
      (e.handle w event).rowsOf (e.look w event sight) := by
  rw [rowsOf_congr (handle_sameSetting e w event), look]
  cases event with
  | beginIndexing => exact h
  | indexingFinished =>
    rw [handle, indexingFinished_eq, drawn?]
    cases e.gate.queue.getLast? with
    | none => exact h
    | some file => rfl
  | select file =>
    rw [handle, select, contents_refresh, drawn?]
    split
    · exact h
    · exact rowsOf_congr ⟨rfl, rfl, rfl⟩ _
  | filesChanged changed =>
    rw [handle, filesChanged, drawn?]
    cases hfile : e.selectedFile with
    | none => exact h
    | some file =>
      by_cases hchanged : changed.any (·.fileName? == file.fileName?) = true
      · simp only [if_pos hchanged, contents_refresh]
        cases e.refreshed? w with
        | none => exact h
        | some file => rfl
      · simp only [if_neg hchanged]
        exact h
  | refresh =>
    rw [handle, contents_refresh, drawn?]
    split
    · exact h
    · rfl
  | move m => exact (e.outline.contents_move m).trans h

/-- What is shown after a run are the rows of what was drawn last. -/
lemma contents_run {sight : Option Sight} (h : e.outline.contents = e.rowsOf sight)
    (events : List (World × Event)) :
    (e.run events).outline.contents = (e.run events).rowsOf (e.sightAfter sight events) := by
  induction events generalizing e sight with
  | nil => exact h
  | cons step rest ih => exact ih (contents_handle h step.2)

/-- What is shown was read during the run. -/
lemma world_of_sightAfter {sight : Option Sight} {s : Sight} {events : List (World × Event)}
    (h : e.sightAfter sight events = some s) :
    sight = some s ∨ ∃ event, (s.world, event) ∈ events := by
  induction events generalizing e sight with
  | nil => exact .inl h
  | cons step rest ih =>
    obtain ⟨w, event⟩ := step
    rcases ih h with hlook | ⟨event', hmem⟩
    · unfold look at hlook
      split at hlook
      · exact .inl hlook
      · obtain ⟨file, -, rfl⟩ := Option.map_eq_some_iff.mp hlook
        exact .inr ⟨event, List.mem_cons_self⟩
    · exact .inr ⟨event', List.mem_cons_of_mem _ hmem⟩

/-- Where no file is selected, nothing is shown and nothing waits. -/
def BlankUnselected (e : Explorer) (sight : Option Sight) : Prop :=
  e.selectedFile = none → sight = none ∧ e.gate.queue = []

lemma BlankUnselected.handle {sight : Option Sight} (h : e.BlankUnselected sight) {event : Event}
    (hevent : event ≠ .select none) :
    (e.handle w event).BlankUnselected (e.look w event sight) := by
  intro hnone
  cases event with
  | beginIndexing => exact h hnone
  | indexingFinished =>
    have hselected : e.selectedFile = none := by
      rw [Explorer.handle, indexingFinished_eq] at hnone
      split at hnone <;> exact hnone
    obtain ⟨hsight, hqueue⟩ := h hselected
    have hempty : e.gate.queue.getLast? = none := by rw [hqueue]; rfl
    rw [Explorer.handle, indexingFinished_eq, look, drawn?, hempty]
    exact ⟨hsight, rfl⟩
  | select file =>
    have hfile : (e.handle w (.select file)).selectedFile = file := selectedFile_refresh _ w
    rw [hfile] at hnone
    exact (hevent (congrArg Event.select hnone)).elim
  | filesChanged changed =>
    cases hselected : e.selectedFile with
    | none =>
      simp only [Explorer.handle, filesChanged, look, drawn?, hselected]
      exact h hselected
    | some file =>
      rw [Explorer.handle, filesChanged, hselected] at hnone
      dsimp only at hnone
      split at hnone
      · simp [selectedFile_refresh, hselected] at hnone
      · simp [hselected] at hnone
  | refresh =>
    have hselected : e.selectedFile = none := (selectedFile_refresh e w).symm.trans hnone
    simp only [Explorer.handle, refresh, look, drawn?, refreshed?, hselected]
    exact ⟨rfl, (h hselected).2⟩
  | move m => exact h hnone

lemma BlankUnselected.run {sight : Option Sight} (h : e.BlankUnselected sight)
    {events : List (World × Event)} (hevents : ∀ step ∈ events, step.2 ≠ .select none) :
    (e.run events).BlankUnselected (e.sightAfter sight events) := by
  induction events generalizing e sight with
  | nil => exact h
  | cons step rest ih =>
    exact ih (h.handle (hevents step List.mem_cons_self))
      fun step' hstep => hevents step' (List.mem_cons_of_mem _ hstep)

end SpecLens.Explorer
