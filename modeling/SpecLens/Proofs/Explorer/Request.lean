import SpecLens.Proofs.Explorer.Sight
import SpecLens.Proofs.Spec.Body

/-!
# Requests and the file they name

A request to run a row names the selected file, and the row was found in the file that is shown.
These are two files when a selection waits for indexing to finish while the rows of another file
stay, or when the file that is shown after indexing is not the selected one.
-/

namespace SpecLens

/-- The request to run a row, for the given file. -/
def RowItem.request? (mode : RunMode) (file : Option Path) : RowItem → Option RunRequest
  | .spec _ fqn _ anchor => some (.forSpec mode file fqn anchor.line)
  | .test specFqn t => some (.forTest mode file specFqn t)
  | _ => none

def RowItem.runnable : RowItem → Bool
  | .spec .. => true
  | .test .. => true
  | _ => false

def Outline.runnable (t : Outline) : Bool := t.items.any (·.runnable)

lemma RowItem.request?_isSome (mode : RunMode) (file : Option Path) (item : RowItem) :
    (item.request? mode file).isSome = item.runnable := by
  cases item <;> rfl

lemma RowItem.fields_of_request? {mode : RunMode} {file : Option Path} {item : RowItem}
    {r : RunRequest} (h : item.request? mode file = some r) : r.mode = mode ∧ r.file = file := by
  cases item with
  | file => simp [request?] at h
  | module => simp [request?] at h
  | spec => cases h; exact ⟨rfl, rfl⟩
  | test => cases h; exact ⟨rfl, rfl⟩

/-- Whether a request runs a spec of a file, or a test of one. -/
def Discovery.Offers (d : Discovery) (w : World) (file : Path) (r : RunRequest) : Prop :=
  ∃ specs, d.specsOfFile w file = .ok specs ∧ ∃ s ∈ specs,
    r = .forSpec r.mode r.file s.fqn s.anchor.line ∨
      ∃ t ∈ s.allTests, r = .forTest r.mode r.file s.fqn t

namespace Explorer

variable {e : Explorer} {w : World} {mode : RunMode} {r : RunRequest}

def moves (e : Explorer) (ms : List Outline.Move) : Explorer := e.mapOutline (ms.foldl .move)

lemma contents_moves (e : Explorer) (ms : List Outline.Move) :
    (e.moves ms).outline.contents = e.outline.contents := by
  show (ms.foldl Outline.move e.outline).contents = e.outline.contents
  induction ms generalizing e with
  | nil => rfl
  | cons m rest ih => exact (ih (e.mapOutline (·.move m))).trans (e.outline.contents_move m)

lemma runSelected_eq (e : Explorer) (mode : RunMode) : e.runSelected mode =
    e.outline.selectedRow?.bind fun row => row.item.request? mode e.selectedFile := rfl

/-- A request is one for a row that is shown. -/
lemma exists_item_of_runSelected (h : e.runSelected mode = some r) :
    ∃ item ∈ e.outline.items, item.request? mode e.selectedFile = some r := by
  rw [runSelected_eq] at h
  obtain ⟨row, hrow, hr⟩ := Option.bind_eq_some_iff.mp h
  exact ⟨row.item, Outline.mem_items_of_selectedRow? hrow, hr⟩

/-- Each row that can be run is run after some moves. -/
lemma exists_moves_of_mem_items {item : RowItem} (h : item ∈ e.outline.items)
    (hr : item.request? mode e.selectedFile = some r) :
    ∃ ms, (e.moves ms).runSelected mode = some r := by
  obtain ⟨index, row, hrow, rfl⟩ := Outline.exists_move_of_mem_items h
  refine ⟨[.expandAll, .select index], ?_⟩
  have hselected : (e.moves [.expandAll, .select index]).outline.selectedRow? = some row := hrow
  rw [runSelected_eq, hselected]
  exact hr

lemma offers_of_mem_items {file : Path} {selected : Option Path} {item : RowItem}
    (hitem : item ∈ (e.outlineOf w file).items) (hr : item.request? mode selected = some r) :
    e.discovery.Offers w file r := by
  rw [Outline.items, contents_outlineOf] at hitem
  split at hitem
  · rename_i m specs _ hspecs
    have hbuild : item ∈ (Outline.build file m.name specs).items := hitem
    rw [Outline.items_build] at hbuild
    refine ⟨specs, hspecs, ?_⟩
    rcases List.mem_cons.mp hbuild with rfl | hbuild
    · simp [RowItem.request?] at hr
    rcases List.mem_cons.mp hbuild with rfl | hbuild
    · simp [RowItem.request?] at hr
    obtain ⟨s, hs, hrow⟩ := List.mem_flatMap.mp hbuild
    refine ⟨s, hs, ?_⟩
    rcases List.mem_cons.mp hrow with rfl | htest
    · cases hr
      exact .inl rfl
    · obtain ⟨t, ht, rfl⟩ := List.mem_map.mp htest
      cases hr
      exact .inr ⟨t, ht, rfl⟩
  · simp at hitem

/-- If a row can be run, the rows are those of the selected file. -/
def Matches (e : Explorer) : Prop :=
  e.outline.runnable = true → e.outline.top? = e.selectedFile.map .file

/-- All requests that can be made after any moves name the file that is shown. -/
lemma matches_iff : e.Matches ↔ ∀ ms mode r, (e.moves ms).runSelected mode = some r →
    e.outline.top? = r.file.map .file := by
  constructor
  · intro h ms mode r hr
    obtain ⟨item, hitem, hrequest⟩ := exists_item_of_runSelected hr
    rw [(RowItem.fields_of_request? hrequest).2]
    apply h
    rw [Outline.items, contents_moves] at hitem
    exact List.any_eq_true.mpr ⟨item, hitem, by
      rw [← RowItem.request?_isSome mode, hrequest, Option.isSome_some]⟩
  · intro h hrunnable
    obtain ⟨item, hitem, hitemRunnable⟩ := List.any_eq_true.mp hrunnable
    rw [← RowItem.request?_isSome .run e.selectedFile] at hitemRunnable
    obtain ⟨r, hr⟩ := Option.isSome_iff_exists.mp hitemRunnable
    obtain ⟨ms, hms⟩ := exists_moves_of_mem_items hitem hr
    rw [h ms .run r hms, (RowItem.fields_of_request? hr).2]

/-- What an event must meet for requests to keep naming the file that is shown. A selection that has
to wait leaves no row to run or those of the same file, and so does the last file that waited when
it is not the selected one. -/
def KeepsMatch (e : Explorer) (w : World) : Event → Prop
  | .select (some file) => e.gate.indexing = true → (e.project.moduleOf? w.disk file).isSome →
      e.outline.runnable = true → e.outline.top? = some (.file file)
  | .indexingFinished => ∀ file ∈ e.gate.queue.getLast?,
      (e.outlineOf w file).runnable = true → e.selectedFile = some file
  | _ => True

lemma top?_of_runnable {file : Path} (h : (e.outlineOf w file).runnable = true) :
    (e.outlineOf w file).top? = some (.file file) := by
  rcases top?_outlineOf e w file with hnone | hsome
  · rw [Outline.top?_eq_head?, List.head?_eq_none_iff] at hnone
    simp [Outline.runnable, hnone] at h
  · exact hsome

lemma matches_congr {f : Explorer} (hrows : e.outline.contents = f.outline.contents)
    (hfile : e.selectedFile = f.selectedFile) : e.Matches ↔ f.Matches := by
  have hitems := Outline.items_congr hrows
  rw [Matches, Matches, Outline.runnable, Outline.runnable, Outline.top?_eq_head?,
    Outline.top?_eq_head?, hitems, hfile]

lemma matches_of_rows {file : Path} (hrows : e.outline.contents = (e.outlineOf w file).contents) :
    e.Matches ↔ ((e.outlineOf w file).runnable = true → e.selectedFile = some file) := by
  rw [matches_congr (f := { e with outline := e.outlineOf w file }) hrows rfl, Matches]
  refine imp_congr_right fun hrunnable => ?_
  rw [top?_of_runnable hrunnable]
  cases hselected : e.selectedFile with
  | none => simp
  | some selected => simp [eq_comm]

lemma refreshed?_eq_some {file : Path} (h : e.refreshed? w = some (some file)) :
    e.selectedFile = some file := by
  unfold refreshed? at h
  split at h
  · simp at h
  · rename_i selected hselected
    split at h
    · simp at h
    · rw [hselected, Option.some.inj h]

/-- Only a refresh that has to wait can leave rows of another file. -/
lemma matches_refresh_iff (e : Explorer) (w : World) :
    (e.refresh w).Matches ↔ (e.refreshed? w = none → e.Matches) := by
  have hrows := contents_refresh e w
  have hfile := selectedFile_refresh e w
  cases hdrawn : e.refreshed? w with
  | none =>
    rw [hdrawn] at hrows
    simpa using matches_congr hrows hfile
  | some drawn =>
    simp only [reduceCtorEq, false_implies, iff_true]
    rw [hdrawn] at hrows
    cases drawn with
    | none =>
      have hitems : (e.refresh w).outline.items = [] := by rw [Outline.items, hrows]; rfl
      intro hrunnable
      simp [Outline.runnable, hitems] at hrunnable
    | some file =>
      have hrows' : (e.refresh w).outline.contents =
          ((e.refresh w).outlineOf w file).contents :=
        hrows.trans (rowsOf_congr (refresh_sameSetting e w) (some ⟨w, file⟩)).symm
      exact (matches_of_rows hrows').mpr fun _ => hfile.trans (refreshed?_eq_some hdrawn)

lemma refreshed?_eq_none_iff : e.refreshed? w = none ↔ ∃ file, e.selectedFile = some file ∧
    (e.project.moduleOf? w.disk file).isSome ∧ e.gate.indexing = true := by
  unfold refreshed?
  cases e.selectedFile with
  | none => simp
  | some file =>
    simp [and_comm, Option.isSome_iff_ne_none]

lemma matches_handle_iff (h : e.Matches) (event : Event) :
    (e.handle w event).Matches ↔ e.KeepsMatch w event := by
  cases event with
  | beginIndexing => exact iff_of_true h trivial
  | indexingFinished =>
    rw [handle, indexingFinished_eq, KeepsMatch]
    cases e.gate.queue.getLast? with
    | none => exact iff_of_true h (by simp)
    | some file =>
      simp only [Option.mem_def, Option.some.injEq, forall_eq']
      exact matches_of_rows (w := w) rfl
  | select file =>
    rw [handle, select, matches_refresh_iff, refreshed?_eq_none_iff]
    cases file with
    | none => simp [KeepsMatch]
    | some file => simp [KeepsMatch, Matches, and_imp, imp.swap]
  | filesChanged changed =>
    refine iff_of_true ?_ trivial
    rw [handle, filesChanged]
    split
    · exact h
    · split
      · exact (matches_refresh_iff e w).mpr fun _ => h
      · exact h
  | refresh => exact iff_of_true ((matches_refresh_iff e w).mpr fun _ => h) trivial
  | move m =>
    have hmoved : (e.handle w (.move m)).Matches ↔ e.Matches :=
      matches_congr (e.outline.contents_move m) rfl
    exact iff_of_true (hmoved.mpr h) trivial

/-- What holds at the start and is kept just by the events of a kind holds throughout a run just if
all its events are of that kind. -/
lemma forall_run_iff {P : Explorer → Prop} {K : Explorer → World → Event → Prop}
    (hstep : ∀ e w event, P e → (P (e.handle w event) ↔ K e w event)) (h : P e)
    (events : List (World × Event)) :
    (∀ before after, events = before ++ after → P (e.run before)) ↔
      ∀ before w event after, events = before ++ (w, event) :: after →
        K (e.run before) w event := by
  constructor
  · rintro hall before w event after rfl
    have hbefore := hall before ((w, event) :: after) rfl
    have hafter := hall (before ++ [(w, event)]) after (by simp)
    rw [run_append] at hafter
    exact (hstep _ w event hbefore).mp hafter
  · intro hall
    induction events generalizing e with
    | nil =>
      intro before after heq
      rw [(List.append_eq_nil_iff.mp heq.symm).1]
      exact h
    | cons step rest ih =>
      obtain ⟨w, event⟩ := step
      have hkept : P (e.handle w event) := (hstep e w event h).mpr (hall [] w event rest rfl)
      rintro (_ | ⟨step, before⟩) after heq
      · exact h
      · obtain ⟨rfl, rfl⟩ := List.cons.inj heq
        refine ih hkept (fun b w' event' a hb => ?_) before after rfl
        exact hall ((w, event) :: b) w' event' a (by rw [hb]; rfl)

/-- A request made after a run is one for a spec or a test of the file that is shown, as it was when
its rows were drawn. -/
lemma offers_of_run {events : List (World × Event)} {ms : List Outline.Move}
    (hrows : e.outline.contents = e.rowsOf none)
    (hr : ((e.run events).moves ms).runSelected mode = some r) :
    ∃ w file, (∃ event, (w, event) ∈ events) ∧
      (e.run events).outline.top? = some (.file file) ∧ e.discovery.Offers w file r := by
  obtain ⟨item, hitem, hrequest⟩ := exists_item_of_runSelected hr
  rw [Outline.items_congr (contents_moves _ ms)] at hitem
  have hshown := contents_run hrows events
  cases hsight : e.sightAfter none events with
  | none =>
    rw [Outline.items, hshown, hsight] at hitem
    simp [rowsOf] at hitem
  | some s =>
    rw [hsight] at hshown
    have hitems : (e.run events).outline.items = (e.outlineOf s.world s.file).items :=
      (congrArg _ hshown).trans (congrArg _ (rowsOf_congr (run_sameSetting e events) (some s)))
    rw [hitems] at hitem
    refine ⟨s.world, s.file, (world_of_sightAfter hsight).resolve_left (by simp), ?_,
      offers_of_mem_items hitem hrequest⟩
    rw [Outline.top?_eq_head?, hitems, ← Outline.top?_eq_head?]
    apply top?_of_runnable
    exact List.any_eq_true.mpr ⟨item, hitem, by
      rw [← RowItem.request?_isSome mode, hrequest, Option.isSome_some]⟩

/-- In a run, a request is always one for a spec or a test of the file that is shown, as it was when
its rows were drawn, and it names the selected file. All requests name the file that is shown if and
only if no selection that waits and no end of indexing leaves rows of another file. -/
theorem requests_name_shown_file_iff (project : Project) (discovery : Discovery)
    (config : ExplorerConfig) (events : List (World × Event)) :
    (∀ before after, events = before ++ after → ∀ ms mode r,
      (((init project discovery config).run before).moves ms).runSelected mode = some r →
        r.mode = mode ∧ r.file = ((init project discovery config).run before).selectedFile ∧
        ∃ w file, (∃ event, (w, event) ∈ before) ∧
          ((init project discovery config).run before).outline.top? = some (.file file) ∧
          discovery.Offers w file r) ∧
    ((∀ before after, events = before ++ after → ∀ ms mode r,
      (((init project discovery config).run before).moves ms).runSelected mode = some r →
        ((init project discovery config).run before).outline.top? = r.file.map .file) ↔
    ∀ before w event after, events = before ++ (w, event) :: after →
      ((init project discovery config).run before).KeepsMatch w event) := by
  constructor
  · intro before after _ ms mode r hr
    obtain ⟨item, -, hrequest⟩ := exists_item_of_runSelected hr
    obtain ⟨hmode, hfile⟩ := RowItem.fields_of_request? hrequest
    exact ⟨hmode, hfile, offers_of_run rfl hr⟩
  · have hinit : (init project discovery config).Matches := fun h => by
      simp [init, Outline.runnable, Outline.items, Outline.contents, Outline.empty] at h
    rw [← forall_run_iff (P := Matches) (fun e w event h => matches_handle_iff h event) hinit]
    exact forall_congr' fun before => forall_congr' fun after => imp_congr_right fun _ =>
      matches_iff.symm

/-- Two source files: one with a spec, the other without any text. -/
def twoFileWorld : World where
  disk := ⟨[(["p"], .directory), (["p", "A.kt"], .file (Text.toBytes hiddenTest.chars)),
    (["p", "B.kt"], .file [])], []⟩
  environment := []
  grammar text := if text.isEmpty then .rule "source_file" 0 0 [] else hiddenTest.root

/-- The spec of one file is run in the name of another that was selected during indexing. -/
theorem request_names_other_file :
    let e := (init oneFileProject (.ofConfig .standard) .standard).run
      [(twoFileWorld, .select (some ⟨"/p/A.kt"⟩)), (twoFileWorld, .beginIndexing),
        (twoFileWorld, .select (some ⟨"/p/B.kt"⟩)), (twoFileWorld, .move (.select 2))]
    e.outline.top? = some (.file ⟨"/p/A.kt"⟩) ∧
      (e.runSelected .run).map (·.file) = some (some ⟨"/p/B.kt"⟩) := by
  decide +kernel

end Explorer

end SpecLens
