import PulseSequencer.Proofs.DependencyGraph.Basic

/-
# PulseSequencer.Proofs.DependencyGraph.Reachability -- only cycles are refused

The search for a way along dependencies has enough fuel to look at every edge, so it
finds a way exactly if there is one (`reaches_iff`).  An edge is therefore refused
exactly if it closes a cycle, and every change keeps a graph well formed
(`WellFormed.addDependency`, `WellFormed.setDependencies`,
`WellFormed.clearDependencies`).
-/

namespace PulseSequencer.DependencyGraph

set_option autoImplicit false

variable {g : DependencyGraph}

/-! ## The search -/

/-- What the search finds is reached from a node of the stack. -/
theorem leads_of_search {target : Nat} {fuel : Nat} {stack seen : List Nat}
    (found : g.search target fuel stack seen = true) : ∃ id ∈ stack, g.Leads id target := by
  induction fuel generalizing stack seen with
  | zero => simp [search] at found
  | succ fuel ih =>
      cases stack with
      | nil => simp [search] at found
      | cons id stack =>
          rw [search] at found
          split at found
          · rename_i here
            exact ⟨id, List.mem_cons_self .., here ▸ Leads.refl g id⟩
          · split at found
            · obtain ⟨other, later, way⟩ := ih found
              exact ⟨other, List.mem_cons_of_mem _ later, way⟩
            · obtain ⟨other, next, way⟩ := ih found
              rcases List.mem_append.1 next with edge | later
              · exact ⟨id, List.mem_cons_self .., Leads.head edge way⟩
              · exact ⟨other, List.mem_cons_of_mem _ later, way⟩

/-- How many edges lead out of nodes that the search has not entered. -/
def unseenEdges (g : DependencyGraph) (seen : List Nat) : Nat :=
  (((List.range g.size).filter (· ∉ seen)).flatMap g.dependenciesOf).length

theorem unseenEdges_nil (g : DependencyGraph) : g.unseenEdges [] = g.edgeCount := by
  have same : (List.range g.size).map (fun id => (g.dependenciesOf id).length) =
      g.nodes.map fun node => node.dependencies.length := by
    refine List.ext_getElem (by simp [size]) fun id known _ => ?_
    have known : id < g.nodes.length := by simpa [size] using known
    simp [dependenciesOf, List.getElem?_eq_getElem known]
  simp [unseenEdges, edgeCount, List.length_flatMap, same]

/-- Entering a node takes its edges off. -/
theorem unseenEdges_cons {id : Nat} {seen : List Nat} (new : id ∉ seen) :
    g.unseenEdges seen = (g.dependenciesOf id).length + g.unseenEdges (id :: seen) := by
  by_cases known : id < g.size
  · have unseen : id ∈ (List.range g.size).filter (· ∉ seen) := by simp [known, new]
    have distinct : ((List.range g.size).filter (· ∉ seen)).Nodup := List.nodup_range.filter _
    have rest : ((List.range g.size).filter (· ∉ seen)).erase id =
        (List.range g.size).filter (· ∉ id :: seen) := by
      rw [distinct.erase_eq_filter, List.filter_filter]
      refine List.filter_congr fun other _ => ?_
      rw [Bool.eq_iff_iff]
      simp
    have entered := ((List.perm_cons_erase unseen).flatMap_right g.dependenciesOf).length_eq
    rw [rest, List.flatMap_cons, List.length_append] at entered
    exact entered
  · have beyond : (List.range g.size).filter (· ∉ seen) =
        (List.range g.size).filter (· ∉ id :: seen) := by
      refine List.filter_congr fun other within => ?_
      have differs : other ≠ id := by
        rintro rfl
        exact known (List.mem_range.1 within)
      simp [differs]
    simp only [unseenEdges, beyond, dependenciesOf_of_size_le (Nat.le_of_not_lt known),
      List.length_nil, Nat.zero_add]

/-- A search that ends without its target has gone through everything that the stack
leads to. -/
theorem not_leads_of_search {target fuel : Nat} {stack seen : List Nat}
    (enough : stack.length + g.unseenEdges seen < fuel)
    (missed : g.search target fuel stack seen = false) (unseen : target ∉ seen)
    (closed : ∀ i ∈ seen, ∀ j ∈ g.dependenciesOf i, j ∈ seen ∨ j ∈ stack) :
    ∀ id, id ∈ stack ∨ id ∈ seen → ¬g.Leads id target := by
  induction fuel generalizing stack seen with
  | zero => omega
  | succ fuel ih =>
      cases stack with
      | nil =>
          intro id start way
          have stays : target ∈ seen := by
            have start : id ∈ seen := start.resolve_left List.not_mem_nil
            clear enough missed ih
            induction way using Relation.ReflTransGen.head_induction_on with
            | refl => exact start
            | head edge _ onward =>
                exact onward (.inr ((closed _ start _ edge).resolve_right List.not_mem_nil))
                  ((closed _ start _ edge).resolve_right List.not_mem_nil)
          exact unseen stays
      | cons id stack =>
          rw [search] at missed
          split at missed
          · simp at missed
          · rename_i differs
            split at missed
            · rename_i old
              intro other start
              refine ih (by simp at enough; omega) missed unseen (fun i entered j edge => ?_) other ?_
              · rcases closed i entered j edge with seen | next
                · exact .inl seen
                · rcases List.mem_cons.1 next with rfl | later
                  · exact .inl old
                  · exact .inr later
              · rcases start with next | entered
                · rcases List.mem_cons.1 next with rfl | later
                  · exact .inr old
                  · exact .inl later
                · exact .inr entered
            · rename_i new
              have fewer := unseenEdges_cons (g := g) new
              intro other start
              refine ih (by simp at enough ⊢; omega) missed ?_ (fun i entered j edge => ?_) other ?_
              · simp [unseen, Ne.symm differs]
              · rcases List.mem_cons.1 entered with rfl | entered
                · exact .inr (List.mem_append_left _ edge)
                · rcases closed i entered j edge with seen | next
                  · exact .inl (List.mem_cons_of_mem _ seen)
                  · rcases List.mem_cons.1 next with rfl | later
                    · exact .inl (List.mem_cons_self ..)
                    · exact .inr (List.mem_append_right _ later)
              · rcases start with next | entered
                · rcases List.mem_cons.1 next with rfl | later
                  · exact .inr (List.mem_cons_self ..)
                  · exact .inl (List.mem_append_right _ later)
                · exact .inr (List.mem_cons_of_mem _ entered)

/-- **The search decides dependency**, directly or through others. -/
theorem reaches_iff (g : DependencyGraph) (source target : Nat) :
    g.reaches source target = true ↔ g.Leads source target := by
  constructor
  · intro found
    obtain ⟨id, start, way⟩ := leads_of_search found
    rwa [List.mem_singleton.1 start] at way
  · intro way
    by_contra missed
    have missed' : g.reaches source target = false := Bool.eq_false_iff.2 missed
    rw [reaches] at missed'
    refine not_leads_of_search ?_ missed' List.not_mem_nil
      (fun _ entered => absurd entered List.not_mem_nil) source (.inl (List.mem_singleton.2 rfl)) way
    rw [unseenEdges_nil]
    simp
    omega

/-! ## Dependencies by name -/

theorem dependencies_nameOf (distinct : g.names.Nodup) {id : Nat} (known : id < g.size) :
    g.dependencies (g.nameOf id) = (g.dependenciesOf id).map g.nameOf := by
  rw [dependencies, idOf?_nameOf distinct known]

theorem WellFormed.dependencies_node (wellFormed : g.WellFormed) (name other : String) :
    (g.node name).1.dependencies other = g.dependencies other := by
  have same := g.node_sameEdges name
  have distinct := node_names_nodup wellFormed.names_nodup name
  cases found : g.idOf? other with
  | some id =>
      obtain ⟨known, named⟩ := nameOf_of_idOf? found
      have still : (g.node name).1.idOf? other = some id := by
        rw [idOf?_eq_some_iff distinct, g.node_nameOf name known]
        exact ⟨Nat.lt_of_lt_of_le known (g.size_le_node name), named⟩
      simp only [dependencies, found, still, same.dependenciesOf]
      exact List.map_congr_left fun d edge => g.node_nameOf name (wellFormed.target_lt edge)
  | none =>
      cases fresh : (g.node name).1.idOf? other with
      | none => simp only [dependencies, found, fresh]
      | some id =>
          have beyond : g.size ≤ id := by
            by_contra known
            have named := (nameOf_of_idOf? fresh).2
            rw [g.node_nameOf name (Nat.lt_of_not_le known)] at named
            rw [(idOf?_eq_some_iff wellFormed.names_nodup).2 ⟨Nat.lt_of_not_le known, named⟩] at found
            exact Option.some_ne_none _ found
          simp only [dependencies, found, fresh, same.dependenciesOf,
            dependenciesOf_of_size_le beyond, List.map_nil]

theorem mem_dependencies_link (distinct : g.names.Nodup) {source : Nat} (target : Nat)
    (sourceKnown : source < g.size) {d : String} :
    d ∈ (g.link source target).dependencies (g.nameOf source) ↔
      d = g.nameOf target ∨ d ∈ g.dependencies (g.nameOf source) := by
  have names := g.names_link source target
  rw [dependencies, idOf?_eq_of_names names, idOf?_nameOf distinct sourceKnown,
    dependencies_nameOf distinct sourceKnown]
  simp only [dependenciesOf_link sourceKnown, if_true, List.mem_map, mem_insertNew,
    nameOf_eq_of_names names]
  constructor
  · rintro ⟨id, rfl | old, rfl⟩
    · exact .inl rfl
    · exact .inr ⟨id, old, rfl⟩
  · rintro (rfl | ⟨id, old, rfl⟩)
    · exact ⟨target, .inl rfl, rfl⟩
    · exact ⟨id, .inr old, rfl⟩

theorem dependencies_link_of_ne {source target : Nat} (sourceKnown : source < g.size)
    {other : String} (differs : other ≠ g.nameOf source) :
    (g.link source target).dependencies other = g.dependencies other := by
  have names := g.names_link source target
  rw [dependencies, dependencies, idOf?_eq_of_names names]
  cases found : g.idOf? other with
  | none => rfl
  | some id =>
      have elsewhere : id ≠ source := by
        rintro rfl
        exact differs (nameOf_of_idOf? found).2.symm
      simp only [dependenciesOf_link sourceKnown, elsewhere, if_false]
      exact List.map_congr_left fun d _ => nameOf_eq_of_names names d

/-! ## Changes by name -/

theorem WellFormed.addDependency (wellFormed : g.WellFormed) (dependent dependency : String) :
    (g.addDependency dependent dependency).1.WellFormed := by
  have both := (wellFormed.node dependent).node dependency
  unfold DependencyGraph.addDependency
  dsimp only
  split
  · exact both
  · rename_i noWay
    refine both.link ?_ (node_id _ dependency).1 fun way => noWay ((reaches_iff ..).2 way)
    exact Nat.lt_of_lt_of_le (g.node_id dependent).1 (size_le_node ..)

/-- An edge that is not refused is there afterwards, and no other is new. -/
theorem WellFormed.mem_dependencies_addDependency (wellFormed : g.WellFormed)
    {h : DependencyGraph} {dependent dependency : String}
    (accepted : g.addDependency dependent dependency = (h, .ok ())) :
    (∀ d, d ∈ h.dependencies dependent ↔ d = dependency ∨ d ∈ g.dependencies dependent) ∧
      ∀ other, other ≠ dependent → h.dependencies other = g.dependencies other := by
  have first := wellFormed.node dependent
  have both := first.node dependency
  obtain ⟨sourceKnown, sourceNamed⟩ := g.node_id dependent
  obtain ⟨_, targetNamed⟩ := (g.node dependent).1.node_id dependency
  have sourceStill := Nat.lt_of_lt_of_le sourceKnown (size_le_node _ dependency)
  have sourceStillNamed := (node_nameOf _ dependency sourceKnown).trans sourceNamed
  have kept : ∀ other, ((g.node dependent).1.node dependency).1.dependencies other =
      g.dependencies other := fun other => by
    rw [first.dependencies_node, wellFormed.dependencies_node]
  unfold DependencyGraph.addDependency at accepted
  dsimp only at accepted
  split at accepted
  · simp at accepted
  · obtain rfl := (Prod.mk.inj accepted).1
    refine ⟨fun d => ?_, fun other differs => ?_⟩
    · have edges := mem_dependencies_link both.names_nodup
        ((g.node dependent).1.node dependency).2 (d := d) sourceStill
      rwa [sourceStillNamed, targetNamed, kept] at edges
    · rw [dependencies_link_of_ne sourceStill (by rwa [sourceStillNamed]), kept]

theorem WellFormed.addAll (wellFormed : g.WellFormed) (dependent : String)
    (dependencies : List String) : (g.addAll dependent dependencies).1.WellFormed := by
  induction dependencies generalizing g with
  | nil => exact wellFormed
  | cons dependency rest ih =>
      have next := wellFormed.addDependency dependent dependency
      rw [DependencyGraph.addAll]
      split
      · rename_i h added
        rw [added] at next
        exact ih next
      · rename_i h cycle refused
        rwa [refused] at next

theorem WellFormed.mem_dependencies_addAll (wellFormed : g.WellFormed) {h : DependencyGraph}
    {dependent : String} {dependencies : List String}
    (accepted : g.addAll dependent dependencies = (h, .ok ())) :
    (∀ d, d ∈ h.dependencies dependent ↔
        d ∈ dependencies ∨ d ∈ g.dependencies dependent) ∧
      ∀ other, other ≠ dependent → h.dependencies other = g.dependencies other := by
  induction dependencies generalizing g with
  | nil =>
      obtain rfl := (Prod.mk.inj accepted).1
      exact ⟨fun d => by simp, fun _ _ => rfl⟩
  | cons dependency rest ih =>
      have next := wellFormed.addDependency dependent dependency
      rw [DependencyGraph.addAll] at accepted
      split at accepted
      · rename_i middle added
        rw [added] at next
        obtain ⟨here, elsewhere⟩ := wellFormed.mem_dependencies_addDependency added
        obtain ⟨hereRest, elsewhereRest⟩ := ih next accepted
        refine ⟨fun d => ?_, fun other differs => ?_⟩
        · rw [hereRest, here, List.mem_cons]
          tauto
        · rw [elsewhereRest other differs, elsewhere other differs]
      · simp at accepted

theorem WellFormed.dependencies_unlinkAll (wellFormed : g.WellFormed) {source : Nat}
    (known : source < g.size) (other : String) :
    (g.unlinkAll source).dependencies other =
      if other = g.nameOf source then [] else g.dependencies other := by
  obtain ⟨names, out, _⟩ := wellFormed.unlinkAll_spec known
  rw [dependencies, dependencies, idOf?_eq_of_names names]
  cases found : g.idOf? other with
  | none => simp
  | some id =>
      have here : id = source ↔ other = g.nameOf source := by
        constructor
        · rintro rfl
          exact (nameOf_of_idOf? found).2.symm
        · rintro rfl
          rw [idOf?_nameOf wellFormed.names_nodup known] at found
          exact (Option.some.inj found).symm
      simp only [out, here]
      split
      · rfl
      · exact List.map_congr_left fun d _ => nameOf_eq_of_names names d

/-- **Replaced dependencies**: a name follows from exactly the listed names, and
every other from the same as before. -/
theorem WellFormed.setDependencies (wellFormed : g.WellFormed) {h : DependencyGraph}
    {dependent : String} {dependencies : List String}
    (accepted : g.setDependencies dependent dependencies = (h, .ok ())) :
    h.WellFormed ∧ (∀ d, d ∈ h.dependencies dependent ↔ d ∈ dependencies) ∧
      ∀ other, other ≠ dependent → h.dependencies other = g.dependencies other := by
  obtain ⟨known, named⟩ := g.node_id dependent
  have first := wellFormed.node dependent
  have cut := first.unlinkAll known
  have edges := fun other => first.dependencies_unlinkAll known other
  unfold DependencyGraph.setDependencies at accepted
  dsimp only at accepted
  split at accepted
  · rename_i final added
    obtain rfl := (Prod.mk.inj accepted).1
    obtain ⟨here, elsewhere⟩ := cut.mem_dependencies_addAll added
    refine ⟨?_, fun d => ?_, fun other differs => ?_⟩
    · have final := cut.addAll dependent dependencies
      rwa [added] at final
    · rw [here, edges, named, if_pos rfl]
      simp
    · rw [elsewhere other differs, edges, named, if_neg differs, wellFormed.dependencies_node]
  · simp at accepted

/-- **Dropped dependencies**: a name follows from none, and every other from the same
as before. -/
theorem WellFormed.clearDependencies (wellFormed : g.WellFormed) (dependent : String) :
    (g.clearDependencies dependent).WellFormed ∧
      ∀ other, (g.clearDependencies dependent).dependencies other =
        if other = dependent then [] else g.dependencies other := by
  unfold DependencyGraph.clearDependencies
  split
  · rename_i source found
    obtain ⟨known, rfl⟩ := nameOf_of_idOf? found
    exact ⟨wellFormed.unlinkAll known, wellFormed.dependencies_unlinkAll known⟩
  · rename_i unknown
    refine ⟨wellFormed, fun other => ?_⟩
    split
    · rename_i here
      rw [here, dependencies, unknown]
    · rfl

end PulseSequencer.DependencyGraph
