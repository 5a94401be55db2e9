import Mathlib.Tactic.Lemma
import SpecLens.Explorer.Basic

/-!
# Runs of the explorer

A run is a sequence of events, each with the disk as it is at that time. The outline that is shown
belongs to the selected file as long as no refresh that waited for indexing to finish comes in after
a selection that was answered at once.
-/

namespace SpecLens

/-- What a user can do with an outline. -/
inductive Outline.Move where
  | next
  | previous
  | select (index : Nat)
  | toggle
  | expandAll
  | collapseAll
deriving DecidableEq, Repr

def Outline.move (t : Outline) : Move → Outline
  | .next => t.selectNext
  | .previous => t.selectPrevious
  | .select index => t.select index
  | .toggle => t.toggleSelected
  | .expandAll => t.expandAll
  | .collapseAll => t.collapseAll

lemma Branch.item_setExpanded (expanded : Bool) (b : Branch) :
    (b.setExpanded expanded).item = b.item := by
  cases b
  rfl

lemma Branch.item_toggleAt (index : Nat) (b : Branch) : (b.toggleAt index).item = b.item := by
  cases b
  cases index <;> rfl

namespace Outline

/-- The item of the topmost row. -/
def top? (t : Outline) : Option RowItem := t.root.map Branch.item

lemma top?_map {f : Branch → Branch} (h : ∀ b, (f b).item = b.item) (t : Outline)
    (selected : Nat) : top? ⟨t.root.map f, selected⟩ = t.top? := by
  cases hroot : t.root <;> simp [top?, hroot, h]

lemma top?_expandAll (t : Outline) : t.expandAll.top? = t.top? :=
  top?_map (Branch.item_setExpanded true) t t.selected

lemma top?_collapseAll (t : Outline) : t.collapseAll.top? = t.top? :=
  top?_map (Branch.item_setExpanded false) t 0

/-- Moves change neither the file that is shown nor whether one is. -/
lemma top?_move (t : Outline) (m : Move) : (t.move m).top? = t.top? := by
  cases m with
  | next =>
    rw [move, selectNext]
    split <;> rfl
  | previous => rfl
  | select index => rfl
  | toggle => exact top?_map (Branch.item_toggleAt t.selected) t _
  | expandAll => exact top?_expandAll t
  | collapseAll => exact top?_collapseAll t

end Outline

namespace Explorer

/-- What happens to an explorer. -/
inductive Event where
  | beginIndexing
  | indexingFinished
  | select (file : Option Path)
  | filesChanged (changed : List Path)
  | refresh
  | move (m : Outline.Move)

def handle (e : Explorer) (w : World) : Event → Explorer
  | .beginIndexing => e.beginIndexing
  | .indexingFinished => e.indexingFinished w
  | .select file => e.select w file
  | .filesChanged changed => e.filesChanged w changed
  | .refresh => e.refresh w
  | .move m => e.mapOutline (·.move m)

def run (e : Explorer) : List (World × Event) → Explorer
  | [] => e
  | (w, event) :: rest => run (e.handle w event) rest

/-- The outline is empty or that of the selected file. -/
def Belongs (e : Explorer) : Prop :=
  e.outline.top? = none ∨ e.outline.top? = e.selectedFile.map .file

instance (e : Explorer) : Decidable e.Belongs := inferInstanceAs (Decidable (_ ∨ _))

/-- The last of the files that wait is the selected one, unless it has no outline. -/
def LastWaitingFits (e : Explorer) (w : World) : Prop :=
  ∀ file ∈ e.gate.queue.getLast?, (e.outlineOf w file).top? = none ∨ e.selectedFile = some file

/-- What holds at every time of a run in which the last waiting file always fits. -/
structure Steady (e : Explorer) : Prop where
  drained : e.gate.indexing = false → e.gate.queue = []
  belongs : e.gate.queue = [] → e.Belongs

variable {e : Explorer} {w : World}

lemma run_append (e : Explorer) (events events' : List (World × Event)) :
    e.run (events ++ events') = (e.run events).run events' := by
  induction events generalizing e with
  | nil => rfl
  | cons step rest ih => exact ih (e.handle step.1 step.2)

lemma top?_outlineOf (e : Explorer) (w : World) (file : Path) :
    (e.outlineOf w file).top? = none ∨ (e.outlineOf w file).top? = some (.file file) := by
  have hexpansion (t : Outline) :
      (if e.startsExpanded then t.expandAll else t.collapseAll).top? = t.top? := by
    split
    · exact t.top?_expandAll
    · exact t.top?_collapseAll
  unfold outlineOf
  split
  · exact .inl rfl
  · dsimp only
    rw [hexpansion]
    split
    · exact .inr rfl
    · exact .inl rfl

/-- Of several files shown one after the other, the last one stays. -/
lemma foldl_render (e : Explorer) (w : World) (waiting : List Path) :
    waiting.foldl (fun e file => e.render w file) e =
      match waiting.getLast? with
      | none => e
      | some file => e.render w file := by
  induction waiting generalizing e with
  | nil => rfl
  | cons file rest ih =>
    rw [List.foldl_cons, ih]
    cases hrest : rest.getLast? with
    | none =>
      rw [List.getLast?_eq_none_iff.mp hrest]
      rfl
    | some last =>
      rw [List.getLast?_cons, hrest]
      rfl

lemma Steady.refresh (h : e.gate.indexing = false → e.gate.queue = []) :
    (e.refresh w).Steady := by
  unfold Explorer.refresh
  split
  · exact ⟨h, fun _ => .inl rfl⟩
  · rename_i file hfile
    split
    · exact ⟨h, fun _ => .inl rfl⟩
    · unfold Gate.submit
      cases hindexing : e.gate.indexing with
      | true => exact ⟨by simp, by simp⟩
      | false =>
        refine ⟨fun _ => h hindexing, fun _ => ?_⟩
        rcases top?_outlineOf e w file with hnone | hsome
        · exact .inl hnone
        · exact .inr (hsome.trans (by simp [render, hfile]))

/-- When indexing finishes, the last waiting file is shown. -/
lemma indexingFinished_eq (e : Explorer) (w : World) :
    e.indexingFinished w =
      match e.gate.queue.getLast? with
      | none => { e with gate := .idle }
      | some file => { e with gate := .idle, outline := e.outlineOf w file } := by
  unfold indexingFinished Gate.finish
  dsimp only
  rw [foldl_render]
  cases e.gate.queue.getLast? <;> rfl

lemma Steady.indexingFinished (h : e.Steady) (hfits : e.LastWaitingFits w) :
    (e.indexingFinished w).Steady := by
  rw [indexingFinished_eq]
  cases hlast : e.gate.queue.getLast? with
  | none => exact ⟨fun _ => rfl, fun _ => h.belongs (List.getLast?_eq_none_iff.mp hlast)⟩
  | some file =>
    refine ⟨fun _ => rfl, fun _ => ?_⟩
    rcases hfits file hlast with hnone | hselected
    · exact .inl hnone
    · rcases top?_outlineOf e w file with hnone | hsome
      · exact .inl hnone
      · exact .inr (hsome.trans (by simp [hselected]))

lemma Steady.handle (h : e.Steady) (event : Event)
    (hfits : event = .indexingFinished → e.LastWaitingFits w) : (e.handle w event).Steady := by
  cases event with
  | beginIndexing => exact ⟨by simp [Explorer.handle, beginIndexing, Gate.start], h.belongs⟩
  | indexingFinished => exact h.indexingFinished (hfits rfl)
  | select file => exact .refresh h.drained
  | filesChanged changed =>
    rw [Explorer.handle, filesChanged]
    split
    · exact h
    · split
      · exact .refresh h.drained
      · exact h
  | refresh => exact .refresh h.drained
  | move m =>
    refine ⟨h.drained, fun hqueue => ?_⟩
    have htop : (e.outline.move m).top? = e.outline.top? := Outline.top?_move _ _
    exact (h.belongs hqueue).imp htop.trans htop.trans

lemma Steady.run (h : e.Steady) (events : List (World × Event))
    (hfits : ∀ before w after, events = before ++ (w, .indexingFinished) :: after →
      (e.run before).LastWaitingFits w) : (e.run events).Steady := by
  induction events generalizing e with
  | nil => exact h
  | cons step rest ih =>
    obtain ⟨w, event⟩ := step
    -- The rest is a run from the state after the first event, which is steady again.
    apply ih
    · apply h.handle
      rintro rfl
      exact hfits [] w rest rfl
    · rintro before w' after rfl
      exact hfits ((w, event) :: before) w' after rfl

/-- In a run, the outline belongs to the selected file whenever the project is not indexing, if and
only if the last waiting file fits each time that indexing finishes. -/
theorem run_belongs_iff (project : Project) (discovery : Discovery) (config : ExplorerConfig)
    (events : List (World × Event)) :
    (∀ before after, events = before ++ after →
      ((init project discovery config).run before).gate.indexing = false →
      ((init project discovery config).run before).Belongs) ↔
    ∀ before w after, events = before ++ (w, .indexingFinished) :: after →
      ((init project discovery config).run before).LastWaitingFits w := by
  constructor
  · intro h before w after heq file hfile
    have hbelongs := h (before ++ [(w, .indexingFinished)]) after (by simp [heq])
    rw [run_append] at hbelongs
    generalize (init project discovery config).run before = e at hfile hbelongs ⊢
    have hfinished : e.run [(w, .indexingFinished)] =
        { e with gate := .idle, outline := e.outlineOf w file } := by
      rw [run, run, handle, indexingFinished_eq, hfile]
    rw [hfinished] at hbelongs
    rcases hbelongs rfl with hnone | hselected
    · exact .inl hnone
    · rcases top?_outlineOf e w file with hnone | hsome
      · exact .inl hnone
      · right
        have heq := hselected.symm.trans hsome
        cases hfileSelected : e.selectedFile with
        | none => simp [hfileSelected] at heq
        | some selected => simpa [hfileSelected] using heq
  · rintro h before after rfl hindexing
    have hsteady : ((init project discovery config).run before).Steady := by
      apply Steady.run ⟨fun _ => rfl, fun _ => .inl rfl⟩
      rintro b w a rfl
      exact h b w (a ++ after) (by simp)
    exact hsteady.belongs (hsteady.drained hindexing)

/-- A project of one empty source file. -/
def oneFileProject : Project := ⟨⟨"/p"⟩, [⟨"p", ⟨"/p"⟩⟩], .standard⟩

def oneFileWorld : World where
  disk := ⟨[(["p"], .directory), (["p", "A.kt"], .file [])], []⟩
  environment := []
  grammar _ := .node ⟨"source_file", true, false, false, false, 0, 0⟩ []

/-- A file that waits is shown after the selection of no file. -/
theorem stale_refresh_shown :
    let e := (init oneFileProject (.ofConfig .standard) .standard).run
      [(oneFileWorld, .beginIndexing), (oneFileWorld, .select (some ⟨"/p/A.kt"⟩)),
        (oneFileWorld, .select none), (oneFileWorld, .indexingFinished)]
    e.gate.indexing = false ∧ ¬e.Belongs := by
  decide +kernel

end Explorer

end SpecLens
