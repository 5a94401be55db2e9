import Mathlib.Data.List.Nodup
import SpecLens.Kotlin.Declaration

/-!
# Chains of supertypes within a file

A declaration steps to another one of its file where it names that one's simple name and no later
declaration has the name. `lineage` follows these steps breadth-first and comes to no declaration
twice. This file compares it with the ends of all chains of steps, which come to a declaration as
often as there are chains to it: what `lineage` leaves out are repetitions.
-/

namespace SpecLens.Kotlin

/-- `d` extends `e` within the file: a supertype of `d` is written as the simple name of `e`, and
`e` is the last declaration of that name. -/
structure LocalParent (all : List Declaration) (d e : Declaration) : Prop where
  named : ∃ s ∈ d.supertypes, s.text = e.name
  last : ∃ before after, all = before ++ e :: after ∧ ∀ x ∈ after, x.name ≠ e.name

/-- `e` stands at the end of a chain of `n` steps from `d`. -/
inductive Ascends (all : List Declaration) (d : Declaration) : Nat → Declaration → Prop
  | refl : Ascends all d 0 d
  | step {n : Nat} {e f : Declaration} :
    Ascends all d n e → LocalParent all e f → Ascends all d (n + 1) f

/-- The ends of all chains of `n` steps from some declarations. The chains are in the order of the
declarations they start from and of the supertypes they follow, earlier steps first. -/
def chainEnds (all : List Declaration) : Nat → List Declaration → List Declaration
  | 0, frontier => frontier
  | n + 1, frontier => chainEnds all n (frontier.flatMap (localParents all))

/-- The ends of all chains of fewer than `depth` steps, those of shorter chains first. -/
def arrivals (all : List Declaration) (depth : Nat) (frontier : List Declaration) :
    List Declaration :=
  (List.range depth).flatMap fun n => chainEnds all n frontier

/-- `order` is the breadth-first order of what at most `reach` steps from `d` lead to: each
declaration stands where the first chain ends in it. -/
structure BreadthFirst (all : List Declaration) (d : Declaration) (reach : Nat)
    (order : List Declaration) : Prop where
  mem : ∀ e, e ∈ order ↔ ∃ n ≤ reach, Ascends all d n e
  nodup : order.Nodup
  first : order.map (·.fqn) = ((arrivals all (reach + 1) [d]).map (·.fqn)).eraseDups

variable {all frontier xs ys xs' ys' : List Declaration} {seen seen' : List String}
  {d e f : Declaration} {depth n : Nat}

lemma lastNamed?_eq_some_iff {name : String} : lastNamed? all name = some e ↔
    e.name = name ∧ ∃ before after, all = before ++ e :: after ∧ ∀ x ∈ after, x.name ≠ name := by
  rw [lastNamed?, List.getLast?_filter, List.find?_eq_some_iff_append]
  simp only [decide_eq_true_eq, Bool.not_eq_true', decide_eq_false_iff_not]
  refine and_congr_right fun _ => ⟨?_, ?_⟩
  · rintro ⟨after, before, hall, hafter⟩
    refine ⟨before.reverse, after.reverse, ?_, fun x hx => hafter x (List.mem_reverse.mp hx)⟩
    rw [← List.reverse_reverse all, hall]
    simp
  · rintro ⟨before, after, rfl, hafter⟩
    exact ⟨after.reverse, before.reverse, by simp, fun x hx => hafter x (List.mem_reverse.mp hx)⟩

lemma mem_localParents : e ∈ localParents all d ↔ LocalParent all d e := by
  simp only [localParents, List.mem_filterMap, lastNamed?_eq_some_iff]
  constructor
  · rintro ⟨s, hs, hname, hlast⟩
    exact ⟨⟨s, hs, hname.symm⟩, hname.symm ▸ hlast⟩
  · rintro ⟨⟨s, hs, hname⟩, hlast⟩
    exact ⟨s, hs, hname.symm, hname.symm ▸ hlast⟩

lemma LocalParent.mem (h : LocalParent all d e) : e ∈ all := by
  obtain ⟨before, after, rfl, -⟩ := h.last
  simp

lemma Ascends.mem (hd : d ∈ all) (h : Ascends all d n e) : e ∈ all := by
  cases h with
  | refl => exact hd
  | step _ hparent => exact hparent.mem

/-- The first step of a chain. -/
lemma Ascends.head (h : LocalParent all d e) (h' : Ascends all e n f) :
    Ascends all d (n + 1) f := by
  induction h' with
  | refl => exact .step .refl h
  | step _ hparent ih => exact .step ih hparent

lemma ascends_succ_iff :
    Ascends all d (n + 1) f ↔ ∃ e, LocalParent all d e ∧ Ascends all e n f := by
  constructor
  · -- Chains grow at their ends, so the first step is carried through the last one.
    intro h
    induction n generalizing f with
    | zero =>
      obtain _ | ⟨⟨⟩, hparent⟩ := h
      exact ⟨f, hparent, .refl⟩
    | succ n ih =>
      obtain _ | ⟨hchain, hparent⟩ := h
      obtain ⟨e, hstep, hchain⟩ := ih hchain
      exact ⟨e, hstep, hchain.step hparent⟩
  · rintro ⟨e, hstep, hchain⟩
    exact hchain.head hstep

lemma mem_chainEnds : f ∈ chainEnds all n frontier ↔ ∃ e ∈ frontier, Ascends all e n f := by
  induction n generalizing frontier with
  | zero =>
    constructor
    · exact fun hf => ⟨f, hf, .refl⟩
    · rintro ⟨e, he, ⟨⟩⟩
      exact he
  | succ n ih =>
    simp only [chainEnds, ih, List.mem_flatMap, mem_localParents, ascends_succ_iff]
    constructor
    · rintro ⟨e, ⟨d, hd, hstep⟩, hchain⟩
      exact ⟨d, hd, e, hstep, hchain⟩
    · rintro ⟨d, hd, e, hstep, hchain⟩
      exact ⟨e, ⟨d, hd, hstep⟩, hchain⟩

lemma mem_arrivals :
    f ∈ arrivals all depth frontier ↔ ∃ e ∈ frontier, ∃ n < depth, Ascends all e n f := by
  simp only [arrivals, List.mem_flatMap, List.mem_range, mem_chainEnds]
  constructor
  · rintro ⟨n, hn, e, he, hchain⟩
    exact ⟨e, he, n, hn, hchain⟩
  · rintro ⟨e, he, n, hn, hchain⟩
    exact ⟨n, hn, e, he, hchain⟩

lemma arrivals_succ (all : List Declaration) (depth : Nat) (frontier : List Declaration) :
    arrivals all (depth + 1) frontier =
      frontier ++ arrivals all depth (frontier.flatMap (localParents all)) := by
  rw [arrivals, List.range_succ_eq_map, List.flatMap_cons, List.flatMap_map]
  rfl

lemma mem_fqn_newcomers {fqn : String} :
    fqn ∈ (newcomers seen xs).map (·.fqn) ↔ fqn ∈ xs.map (·.fqn) ∧ fqn ∉ seen := by
  induction xs generalizing seen with
  | nil => simp [newcomers]
  | cons d rest ih =>
    rw [newcomers]
    split <;> grind

lemma newcomers_sublist (seen : List String) (xs : List Declaration) :
    (newcomers seen xs).Sublist xs := by
  induction xs generalizing seen with
  | nil => exact .slnil
  | cons d rest ih =>
    rw [newcomers]
    split
    · exact (ih seen).cons d
    · exact (ih _).cons_cons d

lemma newcomers_nodup (seen : List String) (xs : List Declaration) :
    ((newcomers seen xs).map (·.fqn)).Nodup := by
  induction xs generalizing seen with
  | nil => exact .nil
  | cons d rest ih =>
    rw [newcomers]
    split
    · exact ih seen
    · refine List.nodup_cons.mpr ⟨fun hmem => ?_, ih _⟩
      exact (mem_fqn_newcomers.mp hmem).2 List.mem_cons_self

/-- It matters which names were seen, not in what order. -/
lemma newcomers_congr (h : ∀ fqn, fqn ∈ seen ↔ fqn ∈ seen') :
    newcomers seen xs = newcomers seen' xs := by
  induction xs generalizing seen seen' with
  | nil => rfl
  | cons d rest ih =>
    have hcons : ∀ fqn, fqn ∈ d.fqn :: seen ↔ fqn ∈ d.fqn :: seen' := by simp [h]
    simp only [newcomers, h d.fqn, ih h, ih hcons]

lemma newcomers_append (seen : List String) (xs ys : List Declaration) :
    newcomers seen (xs ++ ys) =
      newcomers seen xs ++ newcomers (seen ++ (newcomers seen xs).map (·.fqn)) ys := by
  induction xs generalizing seen with
  | nil => simp [newcomers]
  | cons d rest ih =>
    rw [List.cons_append, newcomers, newcomers]
    split
    · exact ih seen
    · rw [ih, List.cons_append]
      congr 2
      apply newcomers_congr
      simp [or_left_comm]

lemma map_fqn_newcomers (seen : List String) (xs : List Declaration) :
    (newcomers seen xs).map (·.fqn) =
      ((xs.map (·.fqn)).filter fun fqn => decide (fqn ∉ seen)).eraseDups := by
  induction xs generalizing seen with
  | nil => rfl
  | cons d rest ih =>
    rw [newcomers, List.map_cons, List.filter_cons]
    split
    · rename_i hseen
      simp [hseen, ih]
    · rename_i hnew
      rw [List.map_cons, ih, if_pos (by simpa using hnew), List.eraseDups_cons, List.filter_filter]
      congr 3
      funext fqn
      by_cases heq : fqn = d.fqn <;> simp [heq]

/-- `ys` is `xs` without some declarations whose names were seen or come earlier in `xs`. -/
inductive Thins : List String → List Declaration → List Declaration → Prop
  | nil {seen : List String} : Thins seen [] []
  | keep {seen : List String} {d : Declaration} {xs ys : List Declaration} :
    Thins (d.fqn :: seen) xs ys → Thins seen (d :: xs) (d :: ys)
  | drop {seen : List String} {d : Declaration} {xs ys : List Declaration} :
    d.fqn ∈ seen → Thins seen xs ys → Thins seen (d :: xs) ys

namespace Thins

lemma refl (seen : List String) (xs : List Declaration) : Thins seen xs xs := by
  induction xs generalizing seen with
  | nil => exact .nil
  | cons d xs ih => exact .keep (ih _)

lemma mono (h : Thins seen xs ys) (hseen : seen ⊆ seen') : Thins seen' xs ys := by
  induction h generalizing seen' with
  | nil => exact .nil
  | keep _ ih => exact .keep (ih (List.cons_subset_cons _ hseen))
  | drop hmem _ ih => exact .drop (hseen hmem) (ih hseen)

lemma append (h : Thins seen xs ys) (h' : Thins (seen ++ xs.map (·.fqn)) xs' ys') :
    Thins seen (xs ++ xs') (ys ++ ys') := by
  induction h with
  | nil => exact h'.mono (by simp)
  | keep _ ih => exact .keep (ih (h'.mono (by intro; simp; tauto)))
  | drop hmem _ ih =>
    refine .drop hmem (ih (h'.mono fun fqn hfqn => ?_))
    simp only [List.map_cons, List.mem_append, List.mem_cons] at hfqn ⊢
    rcases hfqn with hfqn | rfl | hfqn
    · exact .inl hfqn
    · exact .inl hmem
    · exact .inr hfqn

lemma drop_all (hxs : ∀ x ∈ xs, x.fqn ∈ seen) (h : Thins seen xs' ys') :
    Thins seen (xs ++ xs') ys' := by
  induction xs with
  | nil => exact h
  | cons d xs ih =>
    obtain ⟨hd, hxs⟩ := List.forall_mem_cons.mp hxs
    exact .drop hd (ih hxs)

lemma newcomers (seen : List String) (xs : List Declaration) :
    Thins seen xs (newcomers seen xs) := by
  induction xs generalizing seen with
  | nil => exact .nil
  | cons d xs ih =>
    rw [Kotlin.newcomers]
    split
    · rename_i hseen
      exact .drop hseen (ih seen)
    · exact .keep (ih _)

lemma newcomers_eq (h : Thins seen xs ys) :
    Kotlin.newcomers seen xs = Kotlin.newcomers seen ys := by
  induction h with
  | nil => rfl
  | @keep seen d _ _ _ ih =>
    rw [Kotlin.newcomers, Kotlin.newcomers]
    split
    · rename_i hseen
      have hsame : ∀ fqn, fqn ∈ seen ↔ fqn ∈ d.fqn :: seen := by grind
      rw [newcomers_congr hsame, ih, newcomers_congr hsame]
    · rw [ih]
  | drop hseen _ ih => rw [Kotlin.newcomers, if_pos hseen, ih]

/-- What is left out need not be followed if what it extends was seen. -/
lemma flatMap (hfqn : (all.map (·.fqn)).Nodup) (h : Thins seen xs ys) (hxs : ∀ x ∈ xs, x ∈ all)
    (hparents : ∀ d ∈ all, d.fqn ∈ seen → ∀ e ∈ localParents all d, e.fqn ∈ seen') :
    Thins seen' (xs.flatMap (localParents all)) (ys.flatMap (localParents all)) := by
  induction h generalizing seen' with
  | nil => exact .nil
  | @keep seen d xs ys _ ih =>
    obtain ⟨hd, hxs⟩ := List.forall_mem_cons.mp hxs
    rw [List.flatMap_cons, List.flatMap_cons]
    refine (refl seen' _).append (ih hxs fun x hx hseen e he => ?_)
    -- A later occurrence of `d` extends what its first one has just added.
    rcases List.mem_cons.mp hseen with heq | hseen
    · cases List.inj_on_of_nodup_map hfqn hx hd heq
      exact List.mem_append_right _ (List.mem_map_of_mem he)
    · exact List.mem_append_left _ (hparents x hx hseen e he)
  | @drop seen d xs ys hmem _ ih =>
    obtain ⟨hd, hxs⟩ := List.forall_mem_cons.mp hxs
    rw [List.flatMap_cons]
    exact drop_all (hparents d hd hmem) (ih hxs hparents)

end Thins

/-! ### Generations -/

/-- What the seen declarations extend was seen, too, or waits to be. -/
def Settled (all : List Declaration) (seen : List String) (frontier : List Declaration) : Prop :=
  ∀ d ∈ all, d.fqn ∈ seen → ∀ e ∈ localParents all d, e.fqn ∈ seen ++ frontier.map (·.fqn)

lemma Settled.next (hfqn : (all.map (·.fqn)).Nodup) (h : Settled all seen xs)
    (hxs : ∀ x ∈ xs, x ∈ all) :
    Settled all (seen ++ xs.map (·.fqn)) (xs.flatMap (localParents all)) := by
  intro d hd hseen e he
  rcases List.mem_append.mp hseen with hseen | hwaits
  · exact List.mem_append_left _ (h d hd hseen e he)
  · obtain ⟨x, hx, heq⟩ := List.mem_map.mp hwaits
    cases List.inj_on_of_nodup_map hfqn (hxs x hx) hd heq
    exact List.mem_append_right _ (List.mem_map_of_mem (List.mem_flatMap.mpr ⟨d, hx, he⟩))

lemma mem_of_mem_next (he : e ∈ xs.flatMap (localParents all)) : e ∈ all := by
  obtain ⟨d, -, he⟩ := List.mem_flatMap.mp he
  exact (mem_localParents.mp he).mem

/-- Chains that start from a repetition lead to repetitions only. -/
lemma Thins.arrivals (hfqn : (all.map (·.fqn)).Nodup) (depth : Nat) (h : Thins seen xs ys)
    (hxs : ∀ x ∈ xs, x ∈ all) (hsettled : Settled all seen xs) :
    Thins seen (arrivals all depth xs) (arrivals all depth ys) := by
  induction depth generalizing seen xs ys with
  | zero => exact .nil
  | succ depth ih =>
    rw [arrivals_succ, arrivals_succ]
    refine h.append (ih (h.flatMap hfqn hxs hsettled) (fun _ => mem_of_mem_next) ?_)
    exact hsettled.next hfqn hxs

lemma generations_nil (all : List Declaration) (depth : Nat) (seen : List String) :
    generations all depth seen [] = [] := by
  cases depth <;> rfl

/-- Generation by generation, the declarations come in the order of the first chains that end in
them. -/
theorem generations_eq (hfqn : (all.map (·.fqn)).Nodup) (depth : Nat)
    (hfrontier : ∀ x ∈ frontier, x ∈ all) (hsettled : Settled all seen frontier) :
    generations all depth seen frontier = newcomers seen (arrivals all depth frontier) := by
  induction depth generalizing seen frontier with
  | zero => rfl
  | succ depth ih =>
    have hseen : ∀ fqn, fqn ∈ seen ++ frontier.map (·.fqn) ↔
        fqn ∈ seen ++ (newcomers seen frontier).map (·.fqn) := by
      intro fqn
      rw [List.mem_append, List.mem_append, mem_fqn_newcomers]
      tauto
    have hfresh : ∀ x ∈ newcomers seen frontier, x ∈ all := fun x hx =>
      hfrontier x ((newcomers_sublist seen frontier).subset hx)
    have hsettled' : Settled all seen (newcomers seen frontier) := fun d hd hmem e he =>
      (hseen _).mp (hsettled d hd hmem e he)
    -- `generations` drops repetitions before it follows supertypes, `arrivals` does not.
    have hthin : Thins (seen ++ frontier.map (·.fqn)) (frontier.flatMap (localParents all))
        ((newcomers seen frontier).flatMap (localParents all)) :=
      (Thins.newcomers seen frontier).flatMap hfqn hfrontier hsettled
    have hrest := (hthin.arrivals hfqn depth (fun _ => mem_of_mem_next)
      (hsettled.next hfqn hfrontier)).newcomers_eq
    have hgenerations := ih (fun _ => mem_of_mem_next) (hsettled'.next hfqn hfresh)
    rw [arrivals_succ, newcomers_append, ← newcomers_congr hseen, hrest, newcomers_congr hseen,
      ← hgenerations, generations]
    split
    · rename_i hnone
      rw [List.isEmpty_iff.mp hnone, generations_nil]
    · rfl

lemma lineage_eq (hfqn : (all.map (·.fqn)).Nodup) (hd : d ∈ all) :
    lineage all d = newcomers [] (arrivals all 8 [d]) :=
  generations_eq hfqn maxLineage (by simp [hd]) (by simp [Settled])

lemma mem_lineage (hfqn : (all.map (·.fqn)).Nodup) (hd : d ∈ all) :
    e ∈ lineage all d ↔ ∃ n ≤ 7, Ascends all d n e := by
  have hmem {e : Declaration} : e ∈ arrivals all 8 [d] ↔ ∃ n ≤ 7, Ascends all d n e := by
    simp only [mem_arrivals, List.mem_singleton, exists_eq_left, Nat.lt_succ_iff]
  have hall : ∀ e ∈ arrivals all 8 [d], e ∈ all := by
    intro e he
    obtain ⟨n, -, hchain⟩ := hmem.mp he
    exact hchain.mem hd
  have hsub := (newcomers_sublist [] (arrivals all 8 [d])).subset
  rw [lineage_eq hfqn hd, ← hmem]
  refine ⟨fun he => hsub he, fun he => ?_⟩
  have hname : e.fqn ∈ (newcomers [] (arrivals all 8 [d])).map (·.fqn) :=
    mem_fqn_newcomers.mpr ⟨List.mem_map_of_mem he, List.not_mem_nil⟩
  obtain ⟨x, hx, heq⟩ := List.mem_map.mp hname
  cases List.inj_on_of_nodup_map hfqn (hall x (hsub hx)) (hall e he) heq
  exact hx

lemma mem_resolvedSupertypes (hfqn : (all.map (·.fqn)).Nodup) (hd : d ∈ all) {name : String} :
    name ∈ resolvedSupertypes all d ↔
      ∃ n ≤ 7, ∃ e, Ascends all d n e ∧ ∃ s ∈ e.supertypes, name ∈ s.candidates := by
  simp only [resolvedSupertypes, List.mem_flatMap, mem_lineage hfqn hd]
  constructor
  · rintro ⟨e, ⟨n, hn, hchain⟩, hname⟩
    exact ⟨n, hn, e, hchain, hname⟩
  · rintro ⟨n, hn, e, hchain, hname⟩
    exact ⟨e, ⟨n, hn, hchain⟩, hname⟩

/-- The names that the supertypes of a declaration may denote are those of all declarations of the
file that at most seven steps lead to, breadth-first and each declaration once. -/
theorem resolvedSupertypes_breadthFirst (all : List Declaration) (d : Declaration)
    (hfqn : (all.map (·.fqn)).Nodup) (hd : d ∈ all) :
    ∃ order, BreadthFirst all d 7 order ∧
      resolvedSupertypes all d = order.flatMap fun e => e.supertypes.flatMap (·.candidates) := by
  have hnodup : ((lineage all d).map (·.fqn)).Nodup := by
    rw [lineage_eq hfqn hd]
    exact newcomers_nodup _ _
  have hfirst : (lineage all d).map (·.fqn) = ((arrivals all 8 [d]).map (·.fqn)).eraseDups := by
    rw [lineage_eq hfqn hd, map_fqn_newcomers]
    simp
  exact ⟨lineage all d, ⟨fun e => mem_lineage hfqn hd, hnodup.of_map _, hfirst⟩, rfl⟩

/-- A class with the given supertypes in a file with the given header. -/
def classOf (h : Header) (fqn name : String) (supertypes : List String) : Declaration :=
  ⟨default, name, none, fqn, supertypes.map fun text => ⟨text, h.candidates text⟩⟩

/-- Classes that extend each other in circles. Two of them have the same simple name. -/
def circle : List Declaration :=
  let h : Header := ⟨none, []⟩
  [classOf h "A" "A" ["B", "C", "A"], classOf h "O.B" "B" ["StringSpec"],
    classOf h "B" "B" ["C", "D"], classOf h "C" "C" ["A", "FunSpec"], classOf h "D" "D" ["B"]]

theorem circle_breadthFirst : (circle.map (·.fqn)).Nodup ∧
    ∃ d ∈ circle, d.fqn = "A" ∧ ∃ order, BreadthFirst circle d 7 order ∧
      order.map (·.fqn) = ["A", "B", "C", "D"] ∧
      resolvedSupertypes circle d = ["B", "C", "A", "C", "D", "A", "FunSpec", "B"] := by
  have hfqn : (circle.map (·.fqn)).Nodup := by decide
  obtain ⟨order, horder, -⟩ := resolvedSupertypes_breadthFirst circle
    (classOf ⟨none, []⟩ "A" "A" ["B", "C", "A"]) hfqn List.mem_cons_self
  refine ⟨hfqn, _, List.mem_cons_self, rfl, order, horder, ?_, by decide⟩
  rw [horder.first]
  decide

end SpecLens.Kotlin
