import PulseSequencer.Proofs.DependencyGraph.History

/-
# PulseSequencer.Proofs.DependencyGraph.Countdown -- what a change is followed by

While a change is followed up, every node counts the dependencies that it waits for.  A
`Moment` is a state of that loop, and `Counts` says what holds of all of them: they are
the states in front of the nodes of the order, one after the other, and a count that is
lowered is not zero yet.  Natural numbers would hide a count below zero, so that the
second part is what makes the order right and not merely a result.

Main statement: `propagation_of_changes`.
-/

namespace PulseSequencer.DependencyGraph

set_option autoImplicit false

variable {g : DependencyGraph} {start : Nat} {done ready : List Nat}
  {pending : List (Nat × Nat)}

/-- The states in which a change of a node is followed up: the nodes that are done, what
each node waits for, and the nodes that are ready. -/
inductive Moment (g : DependencyGraph) (start : Nat) :
    List Nat → List (Nat × Nat) → List Nat → Prop
  | first : g.Moment start []
      ((g.affected start).map fun id => (id, g.pendingIn (g.affected start) id))
      ((g.affected start).filter fun id => g.pendingIn (g.affected start) id = 0)
  | take {done ready : List Nat} {pending : List (Nat × Nat)} {id : Nat}
      (moment : g.Moment start done pending (id :: ready)) :
      g.Moment start (done ++ [id]) (release pending ready (g.dependentsOf id)).1
        (release pending ready (g.dependentsOf id)).2

/-- How counts go down while a change of a node is followed up. -/
structure Counts (g : DependencyGraph) (start : Nat) : Prop where
  /-- Every state is one of the loop: it goes on to the order. -/
  onward : ∀ done pending ready, g.Moment start done pending ready →
    g.settled start = done ++ g.settle (g.size + 1 - done.length) pending ready
  /-- There is a state in front of every node of the order, and one behind the last. -/
  passed : ∀ before after, g.settled start = before ++ after →
    ∃ pending ready, g.Moment start before pending ready
  /-- Whichever dependents of the node that is taken were counted down before, the count
  of the next one is not zero. -/
  positive : ∀ done pending id ready, g.Moment start done pending (id :: ready) →
    ∀ before d after, g.dependentsOf id = before ++ d :: after →
      ∀ n, (release pending ready before).1.lookup d = some n → 0 < n

theorem Moment.settling (wellFormed : g.WellFormed) (moment : g.Moment start done pending ready) :
    g.Settling (g.affected start) done pending ready := by
  induction moment with
  | first => exact settling_start _ (affected_spreading wellFormed start).distinct
  | take _ ih => exact ih.step wellFormed

theorem Moment.onward (wellFormed : g.WellFormed) (moment : g.Moment start done pending ready) :
    g.settled start = done ++ g.settle (g.size + 1 - done.length) pending ready := by
  induction moment with
  | first => rfl
  | @take done ready pending id moment ih =>
      have bound := (moment.settling wellFormed).length_done_le (affected_lt wellFormed)
      have steps : g.size + 1 - done.length = g.size + 1 - (done ++ [id]).length + 1 := by
        rw [List.length_append, List.length_singleton]
        omega
      rw [ih, steps, settle, List.append_assoc, List.singleton_append]

/-- What is taken from a moment on leads to further moments. -/
theorem Moment.settle (moment : g.Moment start done pending ready) {fuel : Nat}
    {before after : List Nat} (split : g.settle fuel pending ready = before ++ after) :
    ∃ pending' ready', g.Moment start (done ++ before) pending' ready' := by
  induction fuel generalizing done pending ready before with
  | zero =>
      obtain ⟨rfl, _⟩ := List.nil_eq_append_iff.1 split
      exact ⟨pending, ready, by rwa [List.append_nil]⟩
  | succ fuel ih =>
      cases before with
      | nil => exact ⟨pending, ready, by rwa [List.append_nil]⟩
      | cons id before =>
          cases ready with
          | nil => cases split
          | cons next ready =>
              obtain ⟨rfl, later⟩ := List.cons.inj split
              obtain ⟨pending', ready', last⟩ := ih moment.take later
              exact ⟨pending', ready', by rwa [List.append_assoc] at last⟩

/-- **A count that is lowered is not zero.**  Its node waits for the one that is taken, and
is counted down for it only once. -/
theorem Moment.positive (wellFormed : g.WellFormed) {id : Nat}
    (moment : g.Moment start done pending (id :: ready)) {before after : List Nat} {d n : Nat}
    (split : g.dependentsOf id = before ++ d :: after)
    (count : (release pending ready before).1.lookup d = some n) : 0 < n := by
  have settling := moment.settling wellFormed
  have distinct := wellFormed.dependents_nodup id
  have edge : d ∈ g.dependentsOf id := split ▸ List.mem_append_right _ (List.mem_cons_self ..)
  rw [split] at distinct
  have new : d ∉ before := fun early =>
    (List.nodup_append.1 distinct).2.2 d early d (List.mem_cons_self ..) rfl
  rw [(release_spec (List.nodup_append.1 distinct).1 pending ready).1, settling.counts] at count
  obtain ⟨listed, waits⟩ := settling.head
  have positive := remaining_pos ((wellFormed.mirrored d id).2 edge) listed waits
  simp only [if_neg new] at count
  by_cases within : d ∈ g.affected start
  · rw [if_pos within] at count
    obtain rfl := Option.some.inj count
    exact positive
  · rw [if_neg within] at count
    cases count

theorem WellFormed.counts (wellFormed : g.WellFormed) (start : Nat) : g.Counts start where
  onward _ _ _ moment := moment.onward wellFormed
  passed _ _ split := Moment.first.settle split
  positive _ _ _ _ moment _ _ _ split _ count := moment.positive wellFormed split count

/-- **What a change is followed by**, after any changes of the graph: each name that depends
on the changed one, directly or through others, once, and no other name; never the changed
name itself; and each behind all of its dependencies among them.  No count of the loop goes
below zero. -/
theorem propagation_of_changes (changes : List Change) (changed : String) :
    let g := changes.foldl perform empty
    (g.propagationOrder changed).Nodup ∧
      (∀ name, name ∈ g.propagationOrder changed ↔ g.Follows name changed) ∧
      changed ∉ g.propagationOrder changed ∧
      (∀ before name after, g.propagationOrder changed = before ++ name :: after →
        ∀ d ∈ g.dependencies name, d ∈ g.propagationOrder changed → d ∈ before) ∧
      ∀ start, g.idOf? changed = some start →
        g.propagationOrder changed = (g.settled start).map g.nameOf ∧ g.Counts start := by
  intro g
  have wellFormed : g.WellFormed := WellFormed.empty.foldl_perform changes
  refine ⟨wellFormed.propagationOrder_nodup changed,
    fun name => wellFormed.mem_propagationOrder_iff, fun there => ?_,
    fun before name after split => wellFormed.propagationOrder_sorted split,
    fun start found => ⟨propagationOrder_eq found, wellFormed.counts start⟩⟩
  exact wellFormed.not_follows_self changed (wellFormed.mem_propagationOrder_iff.1 there)

/-- A node that two ways lead to waits for both of them. -/
example :
    let g := [Change.setDependencies "d" ["b", "c"], .setDependencies "b" ["a"],
      .setDependencies "c" ["b", "a"], .addDependency "a" "x"].foldl perform empty
    g.propagationOrder "a" = ["b", "c", "d"] ∧ g.propagationOrder "d" = [] := by decide

end PulseSequencer.DependencyGraph
