import Mathlib.Data.List.Nodup
import Mathlib.Data.Set.Card
import Mathlib.Tactic.Lemma
import SpecLens.Explorer.Basic

/-!
# What a gate hands out

A run is a sequence of events on a gate that is idle at first. Tasks can be equal, so a submission is
told from others by its position in the run. Each submission comes out once: at once, or when indexing
finishes for the first time after it.
-/

namespace SpecLens.Gate

variable {α β : Type}

/-- What happens to a gate. -/
inductive Event (α : Type) where
  | start
  | finish
  | submit (task : α)
deriving DecidableEq, Repr

def Event.map (f : α → β) : Event α → Event β
  | start => start
  | finish => finish
  | submit task => submit (f task)

/-- The tasks that an event hands out, and the gate after it. -/
def handle (g : Gate α) : Event α → List α × Gate α
  | .start => ([], g.start)
  | .finish => g.finish
  | .submit task => ((g.submit task).1.toList, (g.submit task).2)

def run (g : Gate α) (events : List (Event α)) : Gate α :=
  events.foldl (fun g event => (g.handle event).2) g

/-- The gate before the event at a position of a run. -/
def before (events : List (Event α)) (n : Nat) : Gate α := idle.run (events.take n)

/-- The tasks that the event at a position of a run hands out. -/
def handedOut (events : List (Event α)) (n : Nat) : List α :=
  match events[n]? with
  | some event => ((before events n).handle event).1
  | none => []

/-- The same run, with each task marked by the position at which it is submitted. -/
def numbered (events : List (Event α)) : List (Event (Nat × α)) :=
  events.mapIdx fun n event => event.map (n, ·)

/-- The event at position `m` is the given one, and indexing has not finished between it and position
`n`. -/
def Recent (events : List (Event α)) (n m : Nat) (event : Event α) : Prop :=
  m < n ∧ events[m]? = some event ∧ ∀ k, m < k → k < n → events[k]? ≠ some .finish

/-- The task was submitted at position `m` while the project was indexing, and indexing has not
finished between that and position `n`. -/
def Waits (events : List (Event α)) (n m : Nat) (task : α) : Prop :=
  Recent events n m (.submit task) ∧ (before events m).indexing = true

variable {events : List (Event α)} {n m : Nat} {task : α}

lemma before_succ (events : List (Event α)) (n : Nat) :
    before events (n + 1) =
      match events[n]? with
      | some event => ((before events n).handle event).2
      | none => before events n := by
  unfold before run
  rw [List.take_add_one, List.foldl_append]
  cases events[n]? <;> rfl

lemma recent_succ {event : Event α} : Recent events (n + 1) m event ↔
    Recent events n m event ∧ events[n]? ≠ some .finish ∨ m = n ∧ events[n]? = some event := by
  constructor
  · rintro ⟨hlt, hevent, hunfinished⟩
    rcases Nat.lt_succ_iff_lt_or_eq.mp hlt with hlt | rfl
    · exact .inl ⟨⟨hlt, hevent, fun k hm hk => hunfinished k hm (by omega)⟩,
        hunfinished n hlt (by omega)⟩
    · exact .inr ⟨rfl, hevent⟩
  · rintro (⟨⟨hlt, hevent, hunfinished⟩, hlast⟩ | ⟨rfl, hevent⟩)
    · refine ⟨by omega, hevent, fun k hm hk => ?_⟩
      rcases Nat.lt_succ_iff_lt_or_eq.mp hk with hk | rfl
      · exact hunfinished k hm hk
      · exact hlast
    · exact ⟨by omega, hevent, fun k hm hk => by omega⟩

lemma waits_succ : Waits events (n + 1) m task ↔
    Waits events n m task ∧ events[n]? ≠ some .finish ∨
      m = n ∧ events[n]? = some (.submit task) ∧ (before events n).indexing = true := by
  rw [Waits, recent_succ, Waits]
  constructor
  · rintro ⟨⟨hrecent, hlast⟩ | ⟨rfl, hevent⟩, hindexing⟩
    · exact .inl ⟨⟨hrecent, hindexing⟩, hlast⟩
    · exact .inr ⟨rfl, hevent, hindexing⟩
  · rintro (⟨⟨hrecent, hindexing⟩, hlast⟩ | ⟨rfl, hevent, hindexing⟩)
    · exact ⟨.inl ⟨hrecent, hlast⟩, hindexing⟩
    · exact ⟨.inr ⟨rfl, hevent⟩, hindexing⟩

/-- The gate with each waiting task replaced. -/
def map (f : α → β) (g : Gate α) : Gate β := ⟨g.indexing, g.queue.map f⟩

lemma handle_map (f : α → β) (g : Gate α) (event : Event α) :
    (g.map f).handle (event.map f) = ((g.handle event).1.map f, (g.handle event).2.map f) := by
  cases event with
  | start => rfl
  | finish => rfl
  | submit task =>
    cases hindexing : g.indexing <;> simp [handle, Event.map, submit, map, hindexing]

lemma run_map (f : α → β) (g : Gate α) (events : List (Event α)) :
    (g.map f).run (events.map (.map f)) = (g.run events).map f := by
  induction events generalizing g with
  | nil => rfl
  | cons event rest ih =>
    show ((g.map f).handle (event.map f)).2.run (rest.map (.map f)) =
      ((g.handle event).2.run rest).map f
    rw [handle_map, ih]

lemma map_numbered (events : List (Event α)) : (numbered events).map (.map Prod.snd) = events := by
  apply List.ext_getElem?
  intro n
  rw [numbered, List.getElem?_map, List.getElem?_mapIdx]
  cases events[n]? with
  | none => rfl
  | some event => cases event <;> rfl

lemma getElem?_numbered (events : List (Event α)) (n : Nat) :
    (numbered events)[n]? = events[n]?.map (.map (n, ·)) := by
  rw [numbered, List.getElem?_mapIdx]

lemma before_numbered (events : List (Event α)) (n : Nat) :
    before events n = (before (numbered events) n).map Prod.snd := by
  unfold before
  rw [← run_map, List.map_take, map_numbered]
  rfl

lemma indexing_before_numbered (events : List (Event α)) (n : Nat) :
    (before (numbered events) n).indexing = (before events n).indexing := by
  rw [before_numbered events]
  rfl

lemma handedOut_numbered (events : List (Event α)) (n : Nat) :
    handedOut events n = (handedOut (numbered events) n).map Prod.snd := by
  unfold handedOut
  rw [before_numbered, getElem?_numbered]
  cases events[n]? with
  | none => rfl
  | some event =>
    have hevent : (event.map (n, ·)).map Prod.snd = event := by cases event <;> rfl
    have hmap := handle_map Prod.snd (before (numbered events) n) (event.map (n, ·))
    rw [hevent] at hmap
    exact congrArg Prod.fst hmap

lemma queue_before_of_idle (h : (before events n).indexing = false) :
    (before events n).queue = [] := by
  induction n with
  | zero => rfl
  | succ n ih =>
    rw [before_succ] at h ⊢
    cases hevent : events[n]? with
    | none =>
      rw [hevent] at h
      exact ih h
    | some event =>
      rw [hevent] at h
      cases event with
      | start => simp [handle, start] at h
      | finish => rfl
      | submit task =>
        cases hindexing : (before events n).indexing with
        | true => simp [handle, submit, hindexing] at h
        | false => simpa [handle, submit, hindexing] using ih hindexing

/-- The project is indexing if a start has not been followed by an end. -/
lemma indexing_before_iff :
    (before events n).indexing = true ↔ ∃ m, Recent events n m .start := by
  induction n with
  | zero => simp [before, run, idle, Recent]
  | succ n ih =>
    simp only [recent_succ, exists_or, exists_and_right, ← ih]
    rw [before_succ]
    cases hevent : events[n]? with
    | none => simp
    | some event =>
      cases event with
      | start => simp [handle, start]
      | finish => simp [handle, finish, idle]
      | submit task => cases hindexing : (before events n).indexing <;> simp [handle, submit, hindexing]

/-- In a run with marked tasks, those that wait are in the queue, in the order of their marks. -/
structure Ledger (events : List (Event α)) (n : Nat) : Prop where
  entries : ∀ m task, (m, task) ∈ (before (numbered events) n).queue ↔ Waits events n m task
  ordered : (before (numbered events) n).queue.Pairwise (·.1 < ·.1)

lemma Ledger.keep (h : Ledger events n)
    (hqueue : (before (numbered events) (n + 1)).queue = (before (numbered events) n).queue)
    (hwaits : ∀ m task, Waits events (n + 1) m task ↔ Waits events n m task) :
    Ledger events (n + 1) := by
  refine ⟨fun m task => ?_, hqueue ▸ h.ordered⟩
  rw [hqueue, hwaits]
  exact h.entries m task

lemma Ledger.succ (h : Ledger events n) : Ledger events (n + 1) := by
  have hstep := before_succ (numbered events) n
  rw [getElem?_numbered] at hstep
  cases hevent : events[n]? with
  | none =>
    rw [hevent] at hstep
    exact h.keep (by rw [hstep]; rfl) fun m task => by simp [waits_succ, hevent]
  | some event =>
    rw [hevent] at hstep
    cases event with
    | start => exact h.keep (by rw [hstep]; rfl) fun m task => by simp [waits_succ, hevent]
    | finish =>
      have hqueue : (before (numbered events) (n + 1)).queue = [] := by
        rw [hstep]
        rfl
      exact ⟨fun m task => by simp [hqueue, waits_succ, hevent], hqueue ▸ .nil⟩
    | submit task =>
      have hsame := indexing_before_numbered events n
      cases hindexing : (before events n).indexing with
      | false =>
        have hqueue : (before (numbered events) (n + 1)).queue =
            (before (numbered events) n).queue := by
          simpa [handle, Event.map, submit, hsame, hindexing] using congrArg queue hstep
        exact h.keep hqueue fun m task' => by simp [waits_succ, hevent, hindexing]
      | true =>
        have hqueue : (before (numbered events) (n + 1)).queue =
            (before (numbered events) n).queue ++ [(n, task)] := by
          simpa [handle, Event.map, submit, hsame, hindexing] using congrArg queue hstep
        constructor
        · intro m task'
          simp [hqueue, waits_succ, hevent, hindexing, h.entries, eq_comm]
        · rw [hqueue]
          refine List.pairwise_append.mpr ⟨h.ordered, by simp, fun x hx y hy => ?_⟩
          have hwaits : Waits events n x.1 x.2 := (h.entries _ _).mp hx
          rw [List.mem_singleton.mp hy]
          exact hwaits.1.1

lemma ledger (events : List (Event α)) (n : Nat) : Ledger events n := by
  induction n with
  | zero =>
    exact ⟨fun m task => by simp [before, run, idle, Waits, Recent], by simp [before, run, idle]⟩
  | succ n ih => exact ih.succ

lemma pending_before (events : List (Event α)) (n : Nat) :
    (before events n).pending = {m | ∃ task, Waits events n m task}.ncard := by
  obtain ⟨hentries, hordered⟩ := ledger events n
  have hnodup : ((before (numbered events) n).queue.map Prod.fst).Nodup :=
    (List.pairwise_map.mpr hordered).imp fun h => Nat.ne_of_lt h
  have hset : {m | ∃ task, Waits events n m task} =
      ((before (numbered events) n).queue.map Prod.fst).toFinset := by
    ext m
    simp [← hentries]
  rw [hset, Set.ncard_coe_finset, List.toFinset_card_of_nodup hnodup, before_numbered]
  simp [pending, map]

lemma mem_handedOut : (m, task) ∈ handedOut (numbered events) n ↔
    events[n]? = some .finish ∧ Waits events n m task ∨
      m = n ∧ events[n]? = some (.submit task) ∧ (before events n).indexing = false := by
  rw [← (ledger events n).entries, ← indexing_before_numbered, handedOut, getElem?_numbered]
  cases events[n]? with
  | none => simp
  | some event =>
    cases event with
    | start => simp [handle, Event.map]
    | finish => simp [handle, Event.map, finish]
    | submit task' =>
      cases hindexing : (before (numbered events) n).indexing <;>
        simp [handle, Event.map, submit, hindexing, eq_comm]

lemma handedOut_ordered (events : List (Event α)) (n : Nat) :
    (handedOut (numbered events) n).Pairwise (·.1 < ·.1) := by
  rw [handedOut, getElem?_numbered]
  cases events[n]? with
  | none => exact .nil
  | some event =>
    cases event with
    | start => exact .nil
    | finish => exact (ledger events n).ordered
    | submit task =>
      cases hindexing : (before (numbered events) n).indexing <;>
        simp [handle, Event.map, submit, hindexing]

lemma handedOut_unique {n' : Nat} (h : (m, task) ∈ handedOut (numbered events) n)
    (h' : (m, task) ∈ handedOut (numbered events) n') : n = n' := by
  have hle {n n' : Nat} (h : (m, task) ∈ handedOut (numbered events) n)
      (h' : (m, task) ∈ handedOut (numbered events) n') : n ≤ n' := by
    rcases mem_handedOut.mp h with ⟨-, hwaits⟩ | ⟨rfl, -, hidle⟩
    · rcases mem_handedOut.mp h' with ⟨hfinish, hwaits'⟩ | ⟨rfl, -, hidle⟩
      · -- An earlier end of indexing would have left nothing to wait for the later one.
        by_contra hlt
        exact hwaits.1.2.2 n' hwaits'.1.1 (by omega) hfinish
      · simp [hwaits.2] at hidle
    · rcases mem_handedOut.mp h' with ⟨-, hwaits⟩ | ⟨rfl, -, -⟩
      · exact hwaits.1.1.le
      · exact le_rfl
  exact le_antisymm (hle h h') (hle h' h)

lemma exists_handedOut (hsubmit : events[m]? = some (.submit task))
    (h : ¬Waits events events.length m task) : ∃ n, (m, task) ∈ handedOut (numbered events) n := by
  cases hindexing : (before events m).indexing with
  | false => exact ⟨m, mem_handedOut.mpr (.inr ⟨rfl, hsubmit, hindexing⟩)⟩
  | true =>
    have hfinish : ∃ k, m < k ∧ events[k]? = some .finish := by
      by_contra hnever
      have hlt : m < events.length := (List.getElem?_eq_some_iff.mp hsubmit).1
      exact h ⟨⟨hlt, hsubmit, fun k hm _ hk => hnever ⟨k, hm, hk⟩⟩, hindexing⟩
    classical
    obtain ⟨hlt, hfirst⟩ := Nat.find_spec hfinish
    refine ⟨Nat.find hfinish, mem_handedOut.mpr (.inl ⟨hfirst, ⟨hlt, hsubmit, ?_⟩, hindexing⟩)⟩
    exact fun k hm hk hend => Nat.find_min hfinish hk ⟨hm, hend⟩

lemma not_waits_of_handedOut (h : (m, task) ∈ handedOut (numbered events) n) :
    ¬Waits events events.length m task := by
  rintro ⟨⟨-, -, hunfinished⟩, hindexing⟩
  rcases mem_handedOut.mp h with ⟨hfinish, hwaits⟩ | ⟨rfl, -, hidle⟩
  · exact hunfinished n hwaits.1.1 (List.getElem?_eq_some_iff.mp hfinish).1 hfinish
  · simp [hindexing] at hidle

/-- What events hand out are the submitted tasks, in the order of their submission: a submission its
own task, unless the project is indexing, and an end of indexing all those that wait, which are the
ones submitted while indexing since the end before. So a submission comes out exactly once, or waits
at the end of the run. Those that wait are the pending ones; there are none unless the project is
indexing. -/
theorem submission_handed_out_once (events : List (Event α)) :
    (∀ n, handedOut events n = (handedOut (numbered events) n).map Prod.snd ∧
      (handedOut (numbered events) n).Pairwise (·.1 < ·.1) ∧
      ∀ m task, (m, task) ∈ handedOut (numbered events) n ↔
        events[n]? = some .finish ∧ Waits events n m task ∨
          m = n ∧ events[n]? = some (.submit task) ∧ (before events n).indexing = false) ∧
    (∀ m task, events[m]? = some (.submit task) →
      ((∃! n, (m, task) ∈ handedOut (numbered events) n) ↔
        ¬Waits events events.length m task)) ∧
    ∀ n, (before events n).pending = {m | ∃ task, Waits events n m task}.ncard ∧
      ((before events n).indexing = true ↔ ∃ m, Recent events n m .start) ∧
      ((before events n).indexing = false → (before events n).pending = 0) := by
  refine ⟨fun n => ⟨handedOut_numbered events n, handedOut_ordered events n,
    fun m task => mem_handedOut⟩, fun m task hsubmit => ⟨?_, fun hnot => ?_⟩, fun n =>
    ⟨pending_before events n, indexing_before_iff, fun hidle => ?_⟩⟩
  · rintro ⟨n, hmem, -⟩
    exact not_waits_of_handedOut hmem
  · obtain ⟨n, hmem⟩ := exists_handedOut hsubmit hnot
    exact ⟨n, hmem, fun n' hmem' => handedOut_unique hmem' hmem⟩
  · rw [pending, queue_before_of_idle hidle, List.length_nil]

/-- Two submissions of one task come out together, each of them once. -/
theorem equal_tasks_handed_out :
    let events : List (Event Nat) := [.start, .submit 7, .submit 7, .finish]
    events[1]? = some (.submit 7) ∧ events[2]? = some (.submit 7) ∧ handedOut events 3 = [7, 7] ∧
      (∃! n, (1, 7) ∈ handedOut (numbered events) n) ∧
      ∃! n, (2, 7) ∈ handedOut (numbered events) n := by
  intro events
  have honce := (submission_handed_out_once events).2.1
  have hfinish {m : Nat} (h : m < 3) : ¬Waits events events.length m 7 := by
    rintro ⟨⟨-, -, hunfinished⟩, -⟩
    exact hunfinished 3 h (by decide) rfl
  exact ⟨rfl, rfl, rfl, (honce 1 7 rfl).mpr (hfinish (by decide)),
    (honce 2 7 rfl).mpr (hfinish (by decide))⟩

end SpecLens.Gate
