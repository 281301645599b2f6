import PulseSequencer.Proofs.DependencyGraph.Reachability
import Mathlib.Data.List.Perm.Subperm

/-
# PulseSequencer.Proofs.DependencyGraph.Propagation -- who follows, and in what order

A change spreads along dependents until nothing new is found (`mem_affected_iff`), and
the nodes found are taken as soon as all of their dependencies among them are done
(`settled_spec`).  By name, a change is followed by exactly those that depend on it,
each once and after all of its dependencies: `propagationOrder_nodup`,
`mem_propagationOrder_iff` and `propagationOrder_sorted`.
-/

namespace PulseSequencer.DependencyGraph

set_option autoImplicit false

variable {g : DependencyGraph}

/-! ## Spreading -/

theorem length_le_size {ids : List Nat} (distinct : ids.Nodup)
    (known : ∀ id ∈ ids, id < g.size) : ids.length ≤ g.size := by
  have within : ids ⊆ List.range g.size := fun id member => List.mem_range.2 (known id member)
  simpa using (distinct.subperm within).length_le

/-- A rank that falls along edges falls from a node to all that it leads to. -/
theorem rank_le_of_leads {rank : Nat → Nat}
    (descends : ∀ i j, j ∈ g.dependenciesOf i → rank j < rank i) {i j : Nat}
    (way : g.Leads i j) : rank j ≤ rank i := by
  induction way using Relation.ReflTransGen.head_induction_on with
  | refl => exact Nat.le_refl _
  | head edge _ lower =>
      have := descends _ _ edge
      omega

/-- A way along edges from a node is no way back to it. -/
theorem WellFormed.not_leads_back (wellFormed : g.WellFormed) {i d : Nat}
    (edge : d ∈ g.dependenciesOf i) : ¬g.Leads d i := by
  obtain ⟨rank, descends⟩ := wellFormed.ranked
  intro way
  have lower := descends i d edge
  have higher := rank_le_of_leads descends way
  omega

/-- What holds while a change spreads: the nodes entered and those of the queue are
the start and all that is found, and who depends on an entered node is found. -/
structure Spreading (g : DependencyGraph) (start : Nat) (entered queue found : List Nat) :
    Prop where
  split : entered ++ queue = start :: found
  distinct : found.Nodup
  depends : ∀ id ∈ found, ∃ d ∈ g.dependenciesOf id, g.Leads d start
  complete : ∀ id ∈ entered, ∀ d ∈ g.dependentsOf id, d ∈ found

theorem Spreading.step {start id : Nat} {entered queue found : List Nat}
    (wellFormed : g.WellFormed) (spreading : g.Spreading start entered (id :: queue) found) :
    let fresh := (g.dependentsOf id).filter fun d => d ∉ found
    g.Spreading start (entered ++ [id]) (queue ++ fresh) (found ++ fresh) := by
  intro fresh
  have member : id = start ∨ id ∈ found := by
    have inside : id ∈ entered ++ id :: queue := by simp
    rwa [spreading.split, List.mem_cons] at inside
  have way : g.Leads id start := by
    rcases member with rfl | old
    · exact Leads.refl g id
    · obtain ⟨d, edge, onward⟩ := spreading.depends id old
      exact Leads.head edge onward
  refine ⟨?_, ?_, ?_, ?_⟩
  · have split := spreading.split
    rw [List.append_assoc, ← List.cons_append, ← split]
    simp
  · refine List.nodup_append.2 ⟨spreading.distinct, (wellFormed.dependents_nodup id).filter _, ?_⟩
    rintro d old _ new rfl
    simp [fresh, old] at new
  · intro d there
    rcases List.mem_append.1 there with old | new
    · exact spreading.depends d old
    · exact ⟨id, (wellFormed.mirrored d id).2 (List.mem_of_mem_filter new), way⟩
  · intro other there d edge
    rcases List.mem_append.1 there with old | here
    · exact List.mem_append_left _ (spreading.complete other old d edge)
    · obtain rfl := List.mem_singleton.1 here
      by_cases old : d ∈ found
      · exact List.mem_append_left _ old
      · exact List.mem_append_right _ (by simp [fresh, old, edge])

/-- A change has enough steps to enter every node that it finds. -/
theorem spread_spec (wellFormed : g.WellFormed) {start fuel : Nat}
    {entered queue found : List Nat} (spreading : g.Spreading start entered queue found)
    (steps : entered.length + fuel = g.size + 1) :
    g.Spreading start (start :: g.spread fuel queue found) [] (g.spread fuel queue found) := by
  induction fuel generalizing entered queue found with
  | zero =>
      have known : ∀ id ∈ found, id < g.size := fun id there => by
        obtain ⟨d, edge, _⟩ := spreading.depends id there
        exact lt_size_of_mem_dependenciesOf edge
      have bound := length_le_size spreading.distinct known
      have lengths := congrArg List.length spreading.split
      have done : queue = [] := by
        rw [List.length_append, List.length_cons] at lengths
        exact List.eq_nil_of_length_eq_zero (by omega)
      subst done
      obtain rfl : entered = start :: found := by simpa using spreading.split
      exact spreading
  | succ fuel ih =>
      cases queue with
      | nil =>
          obtain rfl : entered = start :: found := by simpa using spreading.split
          exact spreading
      | cons id queue =>
          rw [spread]
          exact ih (spreading.step wellFormed) (by simp; omega)

theorem affected_spreading (wellFormed : g.WellFormed) (start : Nat) :
    g.Spreading start (start :: g.affected start) [] (g.affected start) := by
  have first : g.Spreading start [] [start] [] :=
    ⟨rfl, List.nodup_nil, fun _ there => absurd there List.not_mem_nil,
      fun _ there => absurd there List.not_mem_nil⟩
  exact spread_spec wellFormed first (by simp)

/-- Exactly the nodes that depend on a node are affected by it. -/
theorem mem_affected_iff (wellFormed : g.WellFormed) {start id : Nat} :
    id ∈ g.affected start ↔ ∃ d ∈ g.dependenciesOf id, g.Leads d start := by
  have spreading := affected_spreading wellFormed start
  refine ⟨spreading.depends id, ?_⟩
  rintro ⟨d, edge, way⟩
  have inside : d ∈ start :: g.affected start := by
    clear edge
    induction way using Relation.ReflTransGen.head_induction_on with
    | refl => exact List.mem_cons_self ..
    | head edge _ inside =>
        exact List.mem_cons_of_mem _
          (spreading.complete _ inside _ ((wellFormed.mirrored _ _).1 edge))
  exact spreading.complete d inside id ((wellFormed.mirrored id d).1 edge)

theorem affected_lt (wellFormed : g.WellFormed) {start : Nat} :
    ∀ id ∈ g.affected start, id < g.size := by
  intro id there
  obtain ⟨d, edge, _⟩ := (mem_affected_iff wellFormed).1 there
  exact lt_size_of_mem_dependenciesOf edge

/-! ## Settling -/

theorem lookup_countDown (pending : List (Nat × Nat)) (d x : Nat) :
    (pending.map fun (id, n) => if id = d then (id, n - 1) else (id, n)).lookup x =
      (pending.lookup x).map fun n => if x = d then n - 1 else n := by
  induction pending with
  | nil => rfl
  | cons entry rest ih =>
      obtain ⟨id, n⟩ := entry
      rw [List.map_cons]
      by_cases here : x = id
      · subst here
        by_cases same : x = d <;> simp [same]
      · have apart : (x == id) = false := beq_eq_false_iff_ne.2 here
        have skip : ∀ (m : Nat) (others : List (Nat × Nat)),
            ((id, m) :: others).lookup x = others.lookup x := by
          intro m others
          rw [List.lookup_cons, apart]
        have first : (if id = d then (id, n - 1) else (id, n)) =
            (id, if id = d then n - 1 else n) := by
          split <;> rfl
        dsimp only
        rw [first, skip, skip, ih]

/-- Releasing distinct dependents counts each down once and makes those ready that
have nothing left to wait for. -/
theorem release_spec {ds : List Nat} (distinct : ds.Nodup) (pending : List (Nat × Nat))
    (ready : List Nat) :
    (∀ x, (release pending ready ds).1.lookup x =
        (pending.lookup x).map fun n => if x ∈ ds then n - 1 else n) ∧
      (release pending ready ds).2 =
        ready ++ ds.filter fun d => (pending.lookup d).any fun n => n - 1 = 0 := by
  induction ds generalizing pending ready with
  | nil => simp [release]
  | cons d rest ih =>
      obtain ⟨new, distinct⟩ := List.nodup_cons.1 distinct
      rw [release]
      cases waiting : pending.lookup d with
      | none =>
          obtain ⟨counts, queue⟩ := ih distinct pending ready
          refine ⟨fun x => ?_, ?_⟩
          · simp only [counts, List.mem_cons]
            by_cases here : x = d
            · subst here
              simp [waiting]
            · simp [here]
          · simp only [queue, List.filter_cons, waiting, Option.any_none, Bool.false_eq_true, if_false]
      | some count =>
          dsimp only
          obtain ⟨counts, queue⟩ := ih distinct
            (pending.map fun (id, n) => if id = d then (id, n - 1) else (id, n))
            (if count - 1 = 0 then ready ++ [d] else ready)
          refine ⟨fun x => ?_, ?_⟩
          · rw [counts, lookup_countDown, Option.map_map]
            congr 1
            funext n
            by_cases here : x = d
            · subst here
              simp [new]
            · simp [here]
          · have later : (rest.filter fun x =>
                ((pending.map fun (id, n) => if id = d then (id, n - 1) else (id, n)).lookup x).any
                  fun n => n - 1 = 0) =
                rest.filter fun x => (pending.lookup x).any fun n => n - 1 = 0 := by
              refine List.filter_congr fun x there => ?_
              have differs : x ≠ d := fun same => new (same ▸ there)
              simp [lookup_countDown, differs]
            rw [queue, later, List.filter_cons, waiting]
            by_cases last : count - 1 = 0 <;> simp [last]

/-- How many dependencies of a node among `nodes` are not done. -/
def remaining (g : DependencyGraph) (nodes done : List Nat) (id : Nat) : Nat :=
  ((g.dependenciesOf id).filter fun d => d ∈ nodes ∧ d ∉ done).length

theorem remaining_eq_zero_iff {nodes done : List Nat} {id : Nat} :
    g.remaining nodes done id = 0 ↔ ∀ d ∈ g.dependenciesOf id, d ∈ nodes → d ∈ done := by
  simp [remaining, List.filter_eq_nil_iff]

theorem remaining_pos {nodes done : List Nat} {id d : Nat} (edge : d ∈ g.dependenciesOf id)
    (listed : d ∈ nodes) (waits : d ∉ done) : 0 < g.remaining nodes done id := by
  by_contra none
  exact waits (remaining_eq_zero_iff.1 (Nat.eq_zero_of_not_pos none) d edge listed)

/-- A node that is done leaves one dependency less at each of its dependents. -/
theorem remaining_append (wellFormed : g.WellFormed) {nodes done : List Nat} {d : Nat}
    (listed : d ∈ nodes) (waits : d ∉ done) (id : Nat) :
    g.remaining nodes (done ++ [d]) id =
      if id ∈ g.dependentsOf d then g.remaining nodes done id - 1
      else g.remaining nodes done id := by
  have fewer : (g.dependenciesOf id).filter (fun x => x ∈ nodes ∧ x ∉ done ++ [d]) =
      ((g.dependenciesOf id).filter fun x => x ∈ nodes ∧ x ∉ done).erase d := by
    rw [((wellFormed.dependencies_nodup id).filter _).erase_eq_filter, List.filter_filter]
    refine List.filter_congr fun x _ => ?_
    rw [Bool.eq_iff_iff]
    simp
    tauto
  have edge := wellFormed.mirrored id d
  rw [remaining, fewer, List.length_erase]
  by_cases there : id ∈ g.dependentsOf d
  · rw [if_pos there, if_pos (by simp [edge.2 there, listed, waits])]
    rfl
  · rw [if_neg there, if_neg (by simp [edge, there])]
    rfl

/-- What holds while nodes are taken: each listed node waits for the dependencies that
are not done, and those that wait for none are done or ready. -/
structure Settling (g : DependencyGraph) (nodes done : List Nat) (pending : List (Nat × Nat))
    (ready : List Nat) : Prop where
  counts : ∀ id, pending.lookup id =
    if id ∈ nodes then some (g.remaining nodes done id) else none
  distinct : (done ++ ready).Nodup
  free_iff : ∀ id, id ∈ done ++ ready ↔ id ∈ nodes ∧ g.remaining nodes done id = 0

/-- A node that is taken is one of them, and not done. -/
theorem Settling.head {nodes done ready : List Nat} {pending : List (Nat × Nat)} {id : Nat}
    (settling : g.Settling nodes done pending (id :: ready)) : id ∈ nodes ∧ id ∉ done :=
  ⟨((settling.free_iff id).1 (List.mem_append_right _ (List.mem_cons_self ..))).1, fun early =>
    (List.nodup_append.1 settling.distinct).2.2 id early id (List.mem_cons_self ..) rfl⟩

/-- As many nodes are done as there are, at most. -/
theorem Settling.length_done_le {nodes done ready : List Nat} {pending : List (Nat × Nat)}
    (settling : g.Settling nodes done pending ready) (known : ∀ id ∈ nodes, id < g.size) :
    done.length ≤ g.size :=
  length_le_size (List.nodup_append.1 settling.distinct).1 fun id early =>
    known id ((settling.free_iff id).1 (List.mem_append_left _ early)).1

theorem Settling.step {nodes done ready : List Nat} {pending : List (Nat × Nat)} {id : Nat}
    (wellFormed : g.WellFormed) (settling : g.Settling nodes done pending (id :: ready)) :
    g.Settling nodes (done ++ [id]) (release pending ready (g.dependentsOf id)).1
      (release pending ready (g.dependentsOf id)).2 := by
  obtain ⟨counts, queue⟩ := release_spec (wellFormed.dependents_nodup id) pending ready
  obtain ⟨listed, waits⟩ := settling.head
  have fewer := remaining_append wellFormed listed waits
  -- a dependent is ready now if the node taken was the last that it waited for
  have fresh : ∀ x, x ∈ (g.dependentsOf id).filter
        (fun d => (pending.lookup d).any fun n => n - 1 = 0) ↔
      x ∈ g.dependentsOf id ∧ x ∈ nodes ∧ g.remaining nodes (done ++ [id]) x = 0 := by
    intro x
    rw [List.mem_filter, settling.counts, fewer]
    refine and_congr_right fun edge => ?_
    rw [if_pos edge]
    split <;> simp [*]
  have waited : ∀ x ∈ g.dependentsOf id, x ∉ done ++ id :: ready := by
    intro x edge early
    have positive := remaining_pos ((wellFormed.mirrored x id).2 edge) listed waits
    have none := ((settling.free_iff x).1 early).2
    omega
  refine ⟨fun x => ?_, ?_, fun x => ?_⟩
  · rw [counts, settling.counts, fewer]
    split <;> simp
  · rw [queue, ← List.append_assoc, List.append_assoc done, List.singleton_append]
    refine List.nodup_append.2 ⟨settling.distinct, (wellFormed.dependents_nodup id).filter _, ?_⟩
    rintro x early _ new rfl
    exact waited x ((fresh x).1 new).1 early
  · rw [queue, ← List.append_assoc, List.append_assoc done, List.singleton_append,
      List.mem_append, settling.free_iff, fresh, fewer]
    by_cases edge : x ∈ g.dependentsOf id
    · have positive := remaining_pos ((wellFormed.mirrored x id).2 edge) listed waits
      simp only [edge, if_true, true_and]
      constructor
      · rintro (⟨_, none⟩ | new)
        · omega
        · exact new
      · exact .inr
    · simp only [edge, if_false, false_and, or_false]

/-- As long as no node waits for nothing, all that are listed are done. -/
theorem Settling.all_done {nodes done : List Nat} {pending : List (Nat × Nat)}
    (wellFormed : g.WellFormed) (settling : g.Settling nodes done pending []) :
    ∀ id ∈ nodes, id ∈ done := by
  obtain ⟨rank, descends⟩ := wellFormed.ranked
  intro id listed
  induction height : rank id using Nat.strongRecOn generalizing id with
  | _ n ih =>
      subst height
      have none : g.remaining nodes done id = 0 := remaining_eq_zero_iff.2 fun d edge within =>
        ih (rank d) (descends id d edge) d within rfl
      simpa using (settling.free_iff id).2 ⟨listed, none⟩

/-- **Taking ready nodes one after the other** takes every listed node once, each
after all of its listed dependencies. -/
theorem settled_spec (wellFormed : g.WellFormed) {nodes done ready : List Nat}
    {pending : List (Nat × Nat)} {fuel : Nat} (known : ∀ id ∈ nodes, id < g.size)
    (settling : g.Settling nodes done pending ready) (steps : done.length + fuel = g.size + 1) :
    (done ++ g.settle fuel pending ready).Nodup ∧
      (∀ id, id ∈ done ++ g.settle fuel pending ready ↔ id ∈ nodes) ∧
      ∀ before id after, g.settle fuel pending ready = before ++ id :: after →
        ∀ d ∈ g.dependenciesOf id, d ∈ nodes → d ∈ done ++ before := by
  induction fuel generalizing done ready pending with
  | zero =>
      have bound := settling.length_done_le known
      omega
  | succ fuel ih =>
      cases ready with
      | nil =>
          have all := settling.all_done wellFormed
          simp only [settle, List.append_nil]
          refine ⟨by simpa using settling.distinct, fun id => ⟨fun early => ?_, all id⟩, ?_⟩
          · exact ((settling.free_iff id).1 (List.mem_append_left _ early)).1
          · intro before id after split
            exact absurd split (by simp)
      | cons id ready =>
          obtain ⟨once, listed, sorted⟩ := ih (settling.step wellFormed) (by simp; omega)
          rw [settle]
          dsimp only
          refine ⟨by simpa using once, fun x => by simpa using listed x, ?_⟩
          intro before x after split d edge within
          cases before with
          | nil =>
              obtain ⟨rfl, _⟩ := List.cons.inj split
              have none := ((settling.free_iff id).1 (by simp)).2
              simpa using remaining_eq_zero_iff.1 none d edge within
          | cons first before =>
              obtain ⟨rfl, later⟩ := List.cons.inj split
              simpa using sorted before x after later d edge within

/-- The nodes affected by a change, in the order in which they are taken. -/
def settled (g : DependencyGraph) (start : Nat) : List Nat :=
  let nodes := g.affected start
  g.settle (g.size + 1) (nodes.map fun id => (id, g.pendingIn nodes id))
    (nodes.filter fun id => g.pendingIn nodes id = 0)

theorem settling_start (nodes : List Nat) (distinct : nodes.Nodup) :
    g.Settling nodes [] (nodes.map fun id => (id, g.pendingIn nodes id))
      (nodes.filter fun id => g.pendingIn nodes id = 0) := by
  have same : ∀ id, g.pendingIn nodes id = g.remaining nodes [] id := fun id => by
    simp [pendingIn, remaining]
  refine ⟨fun id => ?_, distinct.filter _, fun id => by simp [same]⟩
  simp only [same]
  clear distinct same
  generalize g.remaining nodes [] = count
  induction nodes with
  | nil => rfl
  | cons first rest ih =>
      by_cases here : id = first
      · subst here
        simp
      · have apart : (id == first) = false := beq_eq_false_iff_ne.2 here
        rw [List.map_cons, List.lookup_cons, apart]
        simpa [here] using ih

theorem settled_of_affected (wellFormed : g.WellFormed) (start : Nat) :
    (g.settled start).Nodup ∧
      (∀ id, id ∈ g.settled start ↔ ∃ d ∈ g.dependenciesOf id, g.Leads d start) ∧
      ∀ before id after, g.settled start = before ++ id :: after →
        ∀ d ∈ g.dependenciesOf id, d ∈ g.settled start → d ∈ before := by
  have distinct := (affected_spreading wellFormed start).distinct
  obtain ⟨once, listed, sorted⟩ := settled_spec wellFormed (affected_lt wellFormed)
    (settling_start (g.affected start) distinct)
    (show ([] : List Nat).length + (g.size + 1) = g.size + 1 by simp)
  refine ⟨once, fun id => (listed id).trans (mem_affected_iff wellFormed), ?_⟩
  intro before id after split d edge there
  exact sorted before id after split d edge ((listed d).1 there)

/-! ## The order of a change by name -/

/-- Whether a name depends on another, directly or through others. -/
def Follows (g : DependencyGraph) : String → String → Prop :=
  Relation.TransGen fun name d => d ∈ g.dependencies name

theorem propagationOrder_eq {changed : String} {start : Nat}
    (found : g.idOf? changed = some start) :
    g.propagationOrder changed = (g.settled start).map g.nameOf := by
  rw [propagationOrder, found]
  rfl

theorem mem_dependencies_iff (distinct : g.names.Nodup) {id : Nat} (known : id < g.size)
    {d : String} : d ∈ g.dependencies (g.nameOf id) ↔ ∃ j ∈ g.dependenciesOf id, g.nameOf j = d := by
  rw [dependencies_nameOf distinct known, List.mem_map]

theorem follows_nameOf_iff (wellFormed : g.WellFormed) {id start : Nat} (known : id < g.size)
    (startKnown : start < g.size) :
    g.Follows (g.nameOf id) (g.nameOf start) ↔ ∃ d ∈ g.dependenciesOf id, g.Leads d start := by
  have edges := fun {id : Nat} (known : id < g.size) {d : String} =>
    mem_dependencies_iff wellFormed.names_nodup known (d := d)
  constructor
  · intro follows
    generalize named : g.nameOf id = name at follows
    induction follows using Relation.TransGen.head_induction_on generalizing id with
    | single edge =>
        subst named
        obtain ⟨j, edge, same⟩ := (edges known).1 edge
        have here := nameOf_inj wellFormed.names_nodup (wellFormed.target_lt edge) startKnown same
        exact ⟨j, edge, here ▸ Leads.refl g j⟩
    | head edge _ ih =>
        subst named
        obtain ⟨j, edge, same⟩ := (edges known).1 edge
        obtain ⟨d, next, way⟩ := ih (wellFormed.target_lt edge) same
        exact ⟨j, edge, Leads.head next way⟩
  · rintro ⟨d, edge, way⟩
    induction way using Relation.ReflTransGen.head_induction_on generalizing id with
    | refl => exact .single ((edges known).2 ⟨start, edge, rfl⟩)
    | head next _ ih =>
        exact .head ((edges known).2 ⟨_, edge, rfl⟩) (ih (wellFormed.target_lt edge) next)

/-- Only names of the graph follow or are followed. -/
theorem Follows.known (wellFormed : g.WellFormed) {name changed : String}
    (follows : g.Follows name changed) :
    (∃ id < g.size, g.nameOf id = name) ∧ ∃ id < g.size, g.nameOf id = changed := by
  have ends : ∀ {a b : String}, b ∈ g.dependencies a →
      (∃ id < g.size, g.nameOf id = a) ∧ ∃ id < g.size, g.nameOf id = b := by
    intro a b edge
    cases found : g.idOf? a with
    | none => simp [dependencies, found] at edge
    | some id =>
        obtain ⟨known, rfl⟩ := nameOf_of_idOf? found
        obtain ⟨j, toNode, rfl⟩ := (mem_dependencies_iff wellFormed.names_nodup known).1 edge
        exact ⟨⟨id, known, rfl⟩, j, wellFormed.target_lt toNode, rfl⟩
  induction follows with
  | single edge => exact ends edge
  | tail _ edge ih => exact ⟨ih.1, (ends edge).2⟩

/-- **Nothing follows itself.** -/
theorem WellFormed.not_follows_self (wellFormed : g.WellFormed) (name : String) :
    ¬g.Follows name name := by
  intro follows
  obtain ⟨⟨id, known, rfl⟩, _⟩ := follows.known wellFormed
  obtain ⟨d, edge, way⟩ := (follows_nameOf_iff wellFormed known known).1 follows
  exact wellFormed.not_leads_back edge way

theorem settled_lt (wellFormed : g.WellFormed) {start id : Nat} (there : id ∈ g.settled start) :
    id < g.size := by
  obtain ⟨d, edge, _⟩ := ((settled_of_affected wellFormed start).2.1 id).1 there
  exact lt_size_of_mem_dependenciesOf edge

theorem WellFormed.propagationOrder_nodup (wellFormed : g.WellFormed) (changed : String) :
    (g.propagationOrder changed).Nodup := by
  cases found : g.idOf? changed with
  | none => simp [propagationOrder, found]
  | some start =>
      rw [propagationOrder_eq found]
      refine List.Nodup.map_on (fun i there j otherThere same => ?_)
        (settled_of_affected wellFormed start).1
      exact nameOf_inj wellFormed.names_nodup (settled_lt wellFormed there)
        (settled_lt wellFormed otherThere) same

/-- **A change is followed by exactly the names that depend on it**, directly or
through others. -/
theorem WellFormed.mem_propagationOrder_iff (wellFormed : g.WellFormed) {changed name : String} :
    name ∈ g.propagationOrder changed ↔ g.Follows name changed := by
  cases found : g.idOf? changed with
  | none =>
      simp only [propagationOrder, found, List.not_mem_nil, false_iff]
      intro follows
      obtain ⟨_, id, known, named⟩ := follows.known wellFormed
      rw [(idOf?_eq_some_iff wellFormed.names_nodup).2 ⟨known, named⟩] at found
      exact Option.some_ne_none _ found
  | some start =>
      obtain ⟨startKnown, startNamed⟩ := nameOf_of_idOf? found
      have listed := (settled_of_affected wellFormed start).2.1
      rw [propagationOrder_eq found, List.mem_map]
      constructor
      · rintro ⟨id, there, rfl⟩
        rw [← startNamed, follows_nameOf_iff wellFormed (settled_lt wellFormed there) startKnown]
        exact (listed id).1 there
      · intro follows
        obtain ⟨⟨id, known, rfl⟩, _⟩ := follows.known wellFormed
        rw [← startNamed, follows_nameOf_iff wellFormed known startKnown] at follows
        exact ⟨id, (listed id).2 follows, rfl⟩

/-- **Dependencies come first**: whatever a name in the order depends on, and is in
the order itself, comes before it. -/
theorem WellFormed.propagationOrder_sorted (wellFormed : g.WellFormed) {changed name : String}
    {before after : List String} (split : g.propagationOrder changed = before ++ name :: after) :
    ∀ d ∈ g.dependencies name, d ∈ g.propagationOrder changed → d ∈ before := by
  cases found : g.idOf? changed with
  | none => simp [propagationOrder, found] at split
  | some start =>
      obtain ⟨_, _, sorted⟩ := settled_of_affected wellFormed start
      rw [propagationOrder_eq found] at split ⊢
      obtain ⟨first, rest, cut, rfl, tail⟩ := List.map_eq_append_iff.1 split
      obtain ⟨id, last, rfl, rfl, _⟩ := List.map_eq_cons_iff.1 tail
      intro d edge there
      have known := settled_lt wellFormed (cut ▸ List.mem_append_right _ (List.mem_cons_self ..))
      obtain ⟨j, toNode, rfl⟩ := (mem_dependencies_iff wellFormed.names_nodup known).1 edge
      obtain ⟨other, listed, same⟩ := List.mem_map.1 there
      obtain rfl := nameOf_inj wellFormed.names_nodup (settled_lt wellFormed listed)
        (wellFormed.target_lt toNode) same
      exact List.mem_map_of_mem (sorted first id last cut other toNode listed)

end PulseSequencer.DependencyGraph
