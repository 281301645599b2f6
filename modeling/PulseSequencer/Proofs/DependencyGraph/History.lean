import PulseSequencer.Proofs.DependencyGraph.Propagation
import Mathlib.Data.List.Induction

/-
# PulseSequencer.Proofs.DependencyGraph.History -- graphs that changes make

Names and edges come into a graph by four calls, two of which can be refused.  A new
edge is refused exactly if it closes a cycle (`WellFormed.addDependency_cases`), and a
list of new dependencies at the first one that does (`WellFormed.addAll_cases`).  Edges
of the dependent itself have no part in that, so that it does not matter which of its
edges were taken away or are there already when an edge is looked at (`Closes.congr`).

A list that is refused is taken back: the dependent's edges are removed once more and
the old ones linked again in their order (`WellFormed.restored`).  Hence every change
keeps a graph well formed, and numbers follow the order in which names are asked for.
Main statement: `edges_of_changes`.
-/

namespace PulseSequencer.DependencyGraph

set_option autoImplicit false

variable {g h : DependencyGraph}

/-! ## Edges that close a cycle -/

/-- Whether an edge to `dependency` closes a cycle: it is the dependent itself, or gets
there through the dependencies of other names. -/
def Closes (g : DependencyGraph) (dependent dependency : String) : Prop :=
  dependency = dependent ∨
    Relation.TransGen (fun name d => name ≠ dependent ∧ d ∈ g.dependencies name) dependency
      dependent

/-- A way to a name that goes on behind it was there before. -/
theorem closes_iff {dependent dependency : String} :
    g.Closes dependent dependency ↔
      dependency = dependent ∨ g.Follows dependency dependent := by
  constructor
  · rintro (same | way)
    · exact .inl same
    · exact .inr (Relation.TransGen.mono (fun _ _ edge => edge.2) _ _ way)
  · rintro (same | follows)
    · exact .inl same
    · -- up to its first visit of the dependent the way uses no edge of it
      induction follows using Relation.TransGen.head_induction_on with
      | @single name edge =>
          by_cases here : name = dependent
          · exact .inl here
          · exact .inr (.single ⟨here, edge⟩)
      | @head name d edge _ ih =>
          by_cases here : name = dependent
          · exact .inl here
          · rcases ih with rfl | way
            · exact .inr (.single ⟨here, edge⟩)
            · exact .inr (.head ⟨here, edge⟩ way)

/-- The dependencies of the dependent itself have no part in it. -/
theorem Closes.congr {dependent : String}
    (same : ∀ other, other ≠ dependent → h.dependencies other = g.dependencies other)
    (dependency : String) : h.Closes dependent dependency ↔ g.Closes dependent dependency := by
  have edges : (fun name d => name ≠ dependent ∧ d ∈ h.dependencies name) =
      fun name d => name ≠ dependent ∧ d ∈ g.dependencies name := by
    funext name d
    refine propext (and_congr_right fun differs => ?_)
    rw [same name differs]
  rw [Closes, Closes, edges]

theorem WellFormed.leads_iff (wellFormed : g.WellFormed) {i j : Nat} (iKnown : i < g.size)
    (jKnown : j < g.size) :
    g.Leads i j ↔ g.nameOf i = g.nameOf j ∨ g.Follows (g.nameOf i) (g.nameOf j) := by
  rw [follows_nameOf_iff wellFormed iKnown jKnown, Leads, Relation.ReflTransGen.cases_head_iff]
  refine or_congr ⟨fun same => congrArg g.nameOf same, ?_⟩ Iff.rfl
  exact nameOf_inj wellFormed.names_nodup iKnown jKnown

/-- **An edge is refused exactly if it closes a cycle.**  Both names are nodes then, and
that is all that changes; an edge that is not refused is linked. -/
theorem WellFormed.addDependency_cases (wellFormed : g.WellFormed)
    (dependent dependency : String) :
    let both := ((g.node dependent).1.node dependency).1
    g.Closes dependent dependency ∧
        g.addDependency dependent dependency = (both, .error ⟨dependent, dependency⟩) ∨
      ¬g.Closes dependent dependency ∧
        g.addDependency dependent dependency =
          (both.link (g.node dependent).2 ((g.node dependent).1.node dependency).2, .ok ()) := by
  intro both
  have first := wellFormed.node dependent
  have bothFormed : both.WellFormed := first.node dependency
  obtain ⟨sourceKnown, sourceNamed⟩ := g.node_id dependent
  obtain ⟨targetKnown, targetNamed⟩ := (g.node dependent).1.node_id dependency
  have sourceStill := Nat.lt_of_lt_of_le sourceKnown (size_le_node _ dependency)
  have kept : ∀ other, both.dependencies other = g.dependencies other := fun other => by
    rw [first.dependencies_node, wellFormed.dependencies_node]
  have reached : both.reaches ((g.node dependent).1.node dependency).2 (g.node dependent).2 = true ↔
      g.Closes dependent dependency := by
    rw [reaches_iff, bothFormed.leads_iff targetKnown sourceStill, targetNamed,
      node_nameOf _ dependency sourceKnown, sourceNamed, ← closes_iff,
      Closes.congr fun other _ => kept other]
  unfold DependencyGraph.addDependency
  dsimp only
  split
  · rename_i found
    exact .inl ⟨reached.1 found, rfl⟩
  · rename_i missed
    exact .inr ⟨fun closes => missed (reached.2 closes), rfl⟩

/-! ## Names in their order -/

/-- The names of a graph after one was asked for. -/
def enter (names : List String) (name : String) : List String :=
  if name ∈ names then names else names ++ [name]

theorem foldl_enter_nil (asked : List String) : asked.foldl enter [] = asked.eraseDups := by
  induction asked using List.reverseRecOn with
  | nil => rfl
  | append_singleton asked name ih =>
      rw [List.foldl_append, ih, List.foldl_cons, List.foldl_nil, enter, List.eraseDups_append]
      by_cases known : name ∈ asked
      · simp [known, List.removeAll]
      · simp [known, List.removeAll, List.eraseDups_cons]

theorem prefix_foldl_enter (names asked : List String) : names <+: asked.foldl enter names := by
  induction asked generalizing names with
  | nil => exact List.prefix_rfl
  | cons name rest ih =>
      refine List.IsPrefix.trans ?_ (ih (enter names name))
      rw [enter]
      split
      · exact List.prefix_rfl
      · exact List.prefix_append names [name]

theorem nameOf_of_extended (names : g.names <+: h.names) {i : Nat} (known : i < g.size) :
    i < h.size ∧ h.nameOf i = g.nameOf i := by
  have still : i < h.size := by
    have longer := names.length_le
    rw [length_names, length_names] at longer
    omega
  have same := List.prefix_iff_getElem?.1 names i (by rwa [length_names])
  rw [← List.getElem?_eq_getElem, g.names_getElem? i known, h.names_getElem? i still] at same
  exact ⟨still, Option.some.inj same⟩

theorem idOf?_of_extended (distinct : h.names.Nodup) (names : g.names <+: h.names) {name : String}
    {id : Nat} (found : g.idOf? name = some id) : h.idOf? name = some id := by
  obtain ⟨known, named⟩ := nameOf_of_idOf? found
  obtain ⟨still, same⟩ := nameOf_of_extended names known
  exact (idOf?_eq_some_iff distinct).2 ⟨still, same.trans named⟩

theorem node_names_eq_enter (g : DependencyGraph) (name : String) :
    (g.node name).1.names = enter g.names name := node_names g name

/-- Both names are asked for, whether or not the edge is refused. -/
theorem WellFormed.names_addDependency (wellFormed : g.WellFormed)
    (dependent dependency : String) :
    (g.addDependency dependent dependency).1.names =
      [dependent, dependency].foldl enter g.names := by
  have both : ((g.node dependent).1.node dependency).1.names =
      [dependent, dependency].foldl enter g.names := by
    rw [node_names_eq_enter, node_names_eq_enter, List.foldl_cons, List.foldl_cons, List.foldl_nil]
  rcases wellFormed.addDependency_cases dependent dependency with ⟨_, outcome⟩ | ⟨_, outcome⟩
  · rw [outcome, both]
  · rw [outcome, names_link, both]

/-! ## Several edges of one node -/

/-- What a graph becomes while edges from one node are added: names asked for come in,
and other nodes keep their dependencies. -/
structure Grown (g : DependencyGraph) (source : Nat) (asked : List String)
    (h : DependencyGraph) : Prop where
  wellFormed : h.WellFormed
  names : h.names = asked.foldl enter g.names
  elsewhere : ∀ i, i ≠ source → h.dependenciesOf i = g.dependenciesOf i

theorem Grown.cons {k : DependencyGraph} {source : Nat} {name : String} {asked : List String}
    (first : g.Grown source [name] h) (rest : h.Grown source asked k) :
    g.Grown source (name :: asked) k where
  wellFormed := rest.wellFormed
  names := by rw [rest.names, first.names, ← List.foldl_append, List.singleton_append]
  elsewhere i other := (rest.elsewhere i other).trans (first.elsewhere i other)

theorem Grown.prefix_names {source : Nat} {asked : List String} (grown : g.Grown source asked h) :
    g.names <+: h.names := by
  rw [grown.names]
  exact prefix_foldl_enter g.names asked

theorem WellFormed.addDependency_grown (wellFormed : g.WellFormed) {dependent : String}
    {source : Nat} (found : g.idOf? dependent = some source) (dependency : String) :
    g.Grown source [dependency] (g.addDependency dependent dependency).1 := by
  have known := (nameOf_of_idOf? found).1
  have node : g.node dependent = (g, source) := by rw [DependencyGraph.node, found]
  have same := g.node_sameEdges dependency
  refine ⟨wellFormed.addDependency dependent dependency, ?_, fun i other => ?_⟩
  · rw [wellFormed.names_addDependency, List.foldl_cons, ← node_names_eq_enter, node]
  · rcases wellFormed.addDependency_cases dependent dependency with ⟨_, outcome⟩ | ⟨_, outcome⟩
    · simp only [outcome, node, same.dependenciesOf]
    · have still := Nat.lt_of_lt_of_le known (g.size_le_node dependency)
      simp only [outcome, node, dependenciesOf_link still, if_neg other, same.dependenciesOf]

/-- **A list of dependencies is refused at the first that closes a cycle.** -/
theorem WellFormed.addAll_cases (wellFormed : g.WellFormed) {dependent : String} {source : Nat}
    (found : g.idOf? dependent = some source) (dependencies : List String) :
    ((∀ d ∈ dependencies, ¬g.Closes dependent d) ∧
        ∃ h, g.addAll dependent dependencies = (h, .ok ()) ∧ g.Grown source dependencies h) ∨
      ∃ before d after h, dependencies = before ++ d :: after ∧ g.Closes dependent d ∧
        (∀ e ∈ before, ¬g.Closes dependent e) ∧
        g.addAll dependent dependencies = (h, .error ⟨dependent, d⟩) ∧
        g.Grown source (before ++ [d]) h := by
  induction dependencies generalizing g with
  | nil => exact .inl ⟨fun d there => (nomatch there), g, rfl, wellFormed, rfl, fun _ _ => rfl⟩
  | cons dependency rest ih =>
      have grown := wellFormed.addDependency_grown found dependency
      rcases wellFormed.addDependency_cases dependent dependency with
        ⟨closes, outcome⟩ | ⟨harmless, outcome⟩
      · rw [outcome] at grown
        refine .inr ⟨[], dependency, rest, _, rfl, closes, fun e there => (nomatch there), ?_,
          grown⟩
        rw [DependencyGraph.addAll, outcome]
      · -- the new edge is one of the dependent, so the others close cycles as before
        have same := (wellFormed.mem_dependencies_addDependency outcome).2
        have onward : g.addAll dependent (dependency :: rest) =
            (g.addDependency dependent dependency).1.addAll dependent rest := by
          rw [DependencyGraph.addAll, outcome]
        rw [outcome] at grown onward
        have still := idOf?_of_extended grown.wellFormed.names_nodup grown.prefix_names found
        rw [onward]
        rcases ih grown.wellFormed still with
          ⟨all, h, accepted, further⟩ | ⟨before, d, after, h, rfl, closes, none', refused, further⟩
        · refine .inl ⟨?_, h, accepted, grown.cons further⟩
          rintro d (_ | ⟨_, later⟩)
          · exact harmless
          · exact (Closes.congr same d).not.1 (all d later)
        · refine .inr ⟨dependency :: before, d, after, h, rfl, (Closes.congr same d).1 closes, ?_,
            refused, grown.cons further⟩
          rintro e (_ | ⟨_, later⟩)
          · exact harmless
          · exact (Closes.congr same e).not.1 (none' e later)

/-! ## Old edges come back -/

/-- Two graphs with the same edges: each node has the same dependencies in their order,
and the same dependents in some order.  Numbers keep their names. -/
structure KeepsEdges (g h : DependencyGraph) : Prop where
  names : g.names <+: h.names
  dependenciesOf : ∀ i, h.dependenciesOf i = g.dependenciesOf i
  dependentsOf : ∀ i, (h.dependentsOf i).Perm (g.dependentsOf i)

theorem KeepsEdges.trans {k : DependencyGraph} (first : g.KeepsEdges h) (second : h.KeepsEdges k) :
    g.KeepsEdges k where
  names := first.names.trans second.names
  dependenciesOf i := (second.dependenciesOf i).trans (first.dependenciesOf i)
  dependentsOf i := (second.dependentsOf i).trans (first.dependentsOf i)

theorem node_keepsEdges (g : DependencyGraph) (name : String) : g.KeepsEdges (g.node name).1 where
  names := by
    rw [node_names_eq_enter]
    exact prefix_foldl_enter g.names [name]
  dependenciesOf := (g.node_sameEdges name).dependenciesOf
  dependentsOf i := by rw [(g.node_sameEdges name).dependentsOf]

/-- Names are told apart by their numbers, so that each name keeps its dependencies too. -/
theorem KeepsEdges.dependencies (keeps : g.KeepsEdges h) (wellFormed : g.WellFormed)
    (distinct : h.names.Nodup) (name : String) : h.dependencies name = g.dependencies name := by
  unfold DependencyGraph.dependencies
  cases found : g.idOf? name with
  | some id =>
      simp only [idOf?_of_extended distinct keeps.names found, keeps.dependenciesOf]
      exact List.map_congr_left fun d edge =>
        (nameOf_of_extended keeps.names (wellFormed.target_lt edge)).2
  | none =>
      cases later : h.idOf? name with
      | none => rfl
      | some id =>
          -- a name that came in has a number of its own, and no edges
          have beyond : g.size ≤ id := by
            by_contra known
            obtain ⟨_, named⟩ := nameOf_of_idOf? later
            obtain ⟨_, same⟩ := nameOf_of_extended keeps.names (Nat.not_le.1 known)
            have old := idOf?_nameOf wellFormed.names_nodup (Nat.not_le.1 known)
            rw [← same, named, found] at old
            exact Option.some_ne_none id old.symm
          simp only [keeps.dependenciesOf, dependenciesOf_of_size_le beyond, List.map_nil]

/-- Edges with different targets stand in the order in which they come. -/
theorem foldl_insertNew {ids targets : List Nat} (distinct : (ids ++ targets).Nodup) :
    targets.foldl (fun ids target => insertNew target ids) ids = ids ++ targets := by
  induction targets generalizing ids with
  | nil => rw [List.foldl_nil, List.append_nil]
  | cons target rest ih =>
      have new : target ∉ ids := fun old =>
        (List.nodup_append.1 distinct).2.2 target old target (List.mem_cons_self ..) rfl
      rw [List.append_cons] at distinct
      rw [List.foldl_cons, insertNew, if_neg new, ih distinct, ← List.append_cons]

/-- The graph with edges from one node to others, one after the other. -/
def linkAll (g : DependencyGraph) (source : Nat) (targets : List Nat) : DependencyGraph :=
  targets.foldl (fun g target => g.link source target) g

theorem names_linkAll (g : DependencyGraph) (source : Nat) (targets : List Nat) :
    (g.linkAll source targets).names = g.names := by
  induction targets generalizing g with
  | nil => rfl
  | cons target rest ih => exact (ih (g.link source target)).trans (names_link g source target)

theorem dependenciesOf_linkAll {source : Nat} (known : source < g.size) (targets : List Nat)
    (i : Nat) :
    (g.linkAll source targets).dependenciesOf i =
      if i = source then
        targets.foldl (fun ids target => insertNew target ids) (g.dependenciesOf i)
      else g.dependenciesOf i := by
  induction targets generalizing g with
  | nil => split <;> rfl
  | cons target rest ih =>
      have size := size_eq_of_names (names_link g source target)
      refine (ih (g := g.link source target) (by rwa [size])).trans ?_
      rw [dependenciesOf_link known]
      split <;> rfl

theorem mem_dependentsOf_linkAll {source : Nat} {targets : List Nat}
    (known : ∀ target ∈ targets, target < g.size) (i j : Nat) :
    j ∈ (g.linkAll source targets).dependentsOf i ↔
      j ∈ g.dependentsOf i ∨ j = source ∧ i ∈ targets := by
  induction targets generalizing g with
  | nil => simp [linkAll]
  | cons target rest ih =>
      have size := size_eq_of_names (names_link g source target)
      refine (ih (g := g.link source target) fun other later => ?_).trans ?_
      · rw [size]
        exact known other (List.mem_cons_of_mem _ later)
      · rw [dependentsOf_link (known target (List.mem_cons_self ..))]
        split
        · rename_i here
          simp only [mem_insertNew, here, List.mem_cons, true_or, and_true]
          tauto
        · rename_i elsewhere
          simp only [List.mem_cons, elsewhere, false_or]

theorem nodup_dependentsOf_linkAll {source : Nat} {targets : List Nat}
    (known : ∀ target ∈ targets, target < g.size)
    (distinct : ∀ i, (g.dependentsOf i).Nodup) (i : Nat) :
    ((g.linkAll source targets).dependentsOf i).Nodup := by
  induction targets generalizing g with
  | nil => exact distinct i
  | cons target rest ih =>
      have size := size_eq_of_names (names_link g source target)
      refine ih (g := g.link source target) (fun other later => ?_) fun place => ?_
      · rw [size]
        exact known other (List.mem_cons_of_mem _ later)
      · rw [dependentsOf_link (known target (List.mem_cons_self ..))]
        split
        · exact nodup_insertNew (distinct place)
        · exact distinct place

/-- **Removed edges that are linked again are as before**, whatever edges of that node
came in between. -/
theorem WellFormed.restored (wellFormed : g.WellFormed) {source : Nat} (known : source < g.size)
    {asked : List String} (grown : (g.unlinkAll source).Grown source asked h) :
    let back := (h.unlinkAll source).linkAll source (g.dependenciesOf source)
    back.WellFormed ∧ back.names = h.names ∧ g.KeepsEdges back := by
  intro back
  obtain ⟨cutNames, cutOut, _⟩ := wellFormed.unlinkAll_spec known
  have names : g.names <+: h.names := cutNames ▸ grown.prefix_names
  have still := (nameOf_of_extended names known).1
  have bare := grown.wellFormed.unlinkAll still
  obtain ⟨bareNames, bareOut, _⟩ := grown.wellFormed.unlinkAll_spec still
  have bareSize := size_eq_of_names bareNames
  have backNames : back.names = (h.unlinkAll source).names := names_linkAll ..
  have targetsKnown : ∀ target ∈ g.dependenciesOf source, target < (h.unlinkAll source).size :=
    fun target edge => by
      rw [bareSize]
      exact (nameOf_of_extended names (wellFormed.target_lt edge)).1
  have dependencies : ∀ i, back.dependenciesOf i = g.dependenciesOf i := fun i => by
    refine (dependenciesOf_linkAll (by rwa [bareSize]) (g.dependenciesOf source) i).trans ?_
    split
    · rename_i here
      rw [bareOut, if_pos here, foldl_insertNew (wellFormed.dependencies_nodup source), here,
        List.nil_append]
    · rename_i other
      rw [bareOut, if_neg other, grown.elsewhere i other, cutOut, if_neg other]
  have dependents : ∀ i j, j ∈ back.dependentsOf i ↔ j ∈ g.dependentsOf i := fun i j => by
    refine (mem_dependentsOf_linkAll targetsKnown i j).trans ?_
    rw [← bare.mirrored, bareOut, ← wellFormed.mirrored]
    by_cases here : j = source
    · simp [here]
    · simp [here, grown.elsewhere j here, cutOut]
  have dependentsNodup : ∀ i, (back.dependentsOf i).Nodup :=
    nodup_dependentsOf_linkAll targetsKnown bare.dependents_nodup
  refine ⟨⟨?_, fun i j => ?_, fun i => ?_, dependentsNodup, ?_⟩, backNames.trans bareNames,
    ⟨?_, dependencies, fun i => ?_⟩⟩
  · rw [backNames]
    exact bare.names_nodup
  · rw [dependencies, dependents]
    exact wellFormed.mirrored i j
  · rw [dependencies]
    exact wellFormed.dependencies_nodup i
  · obtain ⟨rank, descends⟩ := wellFormed.ranked
    refine ⟨rank, fun i j edge => descends i j ?_⟩
    rwa [dependencies] at edge
  · rw [backNames, bareNames]
    exact names
  · exact (List.perm_ext_iff_of_nodup (dependentsNodup i) (wellFormed.dependents_nodup i)).2
      (dependents i)

/-- **Replaced dependencies are refused exactly if one of them closes a cycle**, and told
by the first that does. -/
theorem WellFormed.setDependencies_cases (wellFormed : g.WellFormed) (dependent : String)
    (dependencies : List String) :
    ((∀ d ∈ dependencies, ¬g.Closes dependent d) ∧
        ∃ h, g.setDependencies dependent dependencies = (h, .ok ()) ∧
          h.names = (dependent :: dependencies).foldl enter g.names) ∨
      ∃ before d after h, dependencies = before ++ d :: after ∧ g.Closes dependent d ∧
        (∀ e ∈ before, ¬g.Closes dependent e) ∧
        g.setDependencies dependent dependencies = (h, .error ⟨dependent, d⟩) ∧
        h.WellFormed ∧ h.names = (dependent :: (before ++ [d])).foldl enter g.names ∧
        g.KeepsEdges h := by
  obtain ⟨known, named⟩ := g.node_id dependent
  have first := wellFormed.node dependent
  have cut := first.unlinkAll known
  obtain ⟨cutNames, _, _⟩ := first.unlinkAll_spec known
  have found : ((g.node dependent).1.unlinkAll (g.node dependent).2).idOf? dependent =
      some (g.node dependent).2 := by
    rw [idOf?_eq_of_names cutNames]
    exact (idOf?_eq_some_iff first.names_nodup).2 ⟨known, named⟩
  have same : ∀ other, other ≠ dependent →
      ((g.node dependent).1.unlinkAll (g.node dependent).2).dependencies other =
        g.dependencies other := fun other differs => by
    rw [first.dependencies_unlinkAll known, named, if_neg differs, wellFormed.dependencies_node]
  have entered : ((g.node dependent).1.unlinkAll (g.node dependent).2).names =
      enter g.names dependent := by
    rw [cutNames, node_names_eq_enter]
  rcases cut.addAll_cases found dependencies with
    ⟨all, h, accepted, grown⟩ | ⟨before, d, after, h, rfl, closes, none', refused, grown⟩
  · refine .inl ⟨fun d there => (Closes.congr same d).not.1 (all d there), h, ?_, ?_⟩
    · unfold DependencyGraph.setDependencies
      dsimp only
      rw [accepted]
    · rw [grown.names, entered, List.foldl_cons]
  · obtain ⟨restored, names, keeps⟩ := first.restored known grown
    refine .inr ⟨before, d, after, _, rfl, (Closes.congr same d).1 closes,
      fun e there => (Closes.congr same e).not.1 (none' e there), ?_, restored, ?_,
      (g.node_keepsEdges dependent).trans keeps⟩
    · unfold DependencyGraph.setDependencies
      dsimp only
      rw [refused]
      rfl
    · rw [names, grown.names, entered, List.foldl_cons]

/-! ## Every history -/

/-- A call that changes a graph. -/
inductive Change where
  | node (name : String)
  | addDependency (dependent dependency : String)
  | setDependencies (dependent : String) (dependencies : List String)
  | clearDependencies (dependent : String)
deriving Repr, DecidableEq

/-- The graph after a change, or after its refusal. -/
def perform (g : DependencyGraph) : Change → DependencyGraph
  | .node name => (g.node name).1
  | .addDependency dependent dependency => (g.addDependency dependent dependency).1
  | .setDependencies dependent dependencies => (g.setDependencies dependent dependencies).1
  | .clearDependencies dependent => g.clearDependencies dependent

theorem WellFormed.perform (wellFormed : g.WellFormed) (change : Change) :
    (g.perform change).WellFormed := by
  cases change with
  | node name => exact wellFormed.node name
  | addDependency dependent dependency => exact wellFormed.addDependency dependent dependency
  | setDependencies dependent dependencies =>
      rcases wellFormed.setDependencies_cases dependent dependencies with
        ⟨_, h, accepted, _⟩ | ⟨_, _, _, h, _, _, _, refused, restored, _⟩
      · rw [DependencyGraph.perform, accepted]
        exact (wellFormed.setDependencies accepted).1
      · rwa [DependencyGraph.perform, refused]
  | clearDependencies dependent => exact (wellFormed.clearDependencies dependent).1

theorem WellFormed.foldl_perform (wellFormed : g.WellFormed) (changes : List Change) :
    (changes.foldl DependencyGraph.perform g).WellFormed := by
  induction changes generalizing g with
  | nil => exact wellFormed
  | cons change rest ih => exact ih (wellFormed.perform change)

/-- What is read of a list of dependencies: all of it, or all up to the one refused. -/
def readOf (dependencies : List String) : Except DependencyCycle Unit → List String
  | .ok () => dependencies
  | .error cycle => dependencies.takeWhile (· ≠ cycle.dependency) ++ [cycle.dependency]

/-- The names that a change asks for, in order. -/
def asked (g : DependencyGraph) : Change → List String
  | .node name => [name]
  | .addDependency dependent dependency => [dependent, dependency]
  | .setDependencies dependent dependencies =>
      dependent :: readOf dependencies (g.setDependencies dependent dependencies).2
  | .clearDependencies _ => []

/-- The names that changes ask for one after the other. -/
def askedIn (g : DependencyGraph) : List Change → List String
  | [] => []
  | change :: rest => g.asked change ++ (g.perform change).askedIn rest

/-- **A change lets in the names that it asks for**, and no other. -/
theorem WellFormed.names_perform (wellFormed : g.WellFormed) (change : Change) :
    (g.perform change).names = (g.asked change).foldl enter g.names := by
  cases change with
  | node name => exact node_names_eq_enter g name
  | addDependency dependent dependency =>
      exact wellFormed.names_addDependency dependent dependency
  | setDependencies dependent dependencies =>
      rcases wellFormed.setDependencies_cases dependent dependencies with
        ⟨_, h, accepted, names⟩ | ⟨before, d, after, h, rfl, closes, none', refused, _, names, _⟩
      · simp only [DependencyGraph.perform, asked, accepted, readOf, names]
      · have apart : ∀ e ∈ before, decide (e ≠ d) = true := fun e there => by
          refine decide_eq_true ?_
          rintro rfl
          exact none' e there closes
        have read : (before ++ d :: after).takeWhile (· ≠ d) = before := by
          rw [List.takeWhile_append_of_pos apart, List.takeWhile_cons_of_neg (by simp),
            List.append_nil]
        simp only [DependencyGraph.perform, asked, refused, readOf, names, read]
  | clearDependencies dependent =>
      simp only [DependencyGraph.perform, asked, List.foldl_nil, DependencyGraph.clearDependencies]
      split
      · rename_i source found
        exact (wellFormed.unlinkAll_spec (nameOf_of_idOf? found).1).1
      · rfl

theorem WellFormed.names_foldl_perform (wellFormed : g.WellFormed) (changes : List Change) :
    (changes.foldl DependencyGraph.perform g).names = (g.askedIn changes).foldl enter g.names := by
  induction changes generalizing g with
  | nil => rfl
  | cons change rest ih =>
      rw [List.foldl_cons, ih (wellFormed.perform change), wellFormed.names_perform, askedIn,
        List.foldl_append]

/-- **How an edge is taken.**  It is refused exactly if the dependency is the dependent
itself or depends on it already, directly or through others; then all edges stay.
Otherwise the dependent has this dependency besides those it had. -/
structure Adds (g : DependencyGraph) (dependent dependency : String) : Prop where
  refused_iff : (g.addDependency dependent dependency).2 = .error ⟨dependent, dependency⟩ ↔
    dependency = dependent ∨ g.Follows dependency dependent
  accepted_iff : (g.addDependency dependent dependency).2 = .ok () ↔
    ¬(dependency = dependent ∨ g.Follows dependency dependent)
  kept : (g.addDependency dependent dependency).2 ≠ .ok () →
    g.KeepsEdges (g.addDependency dependent dependency).1
  added : (g.addDependency dependent dependency).2 = .ok () →
    (∀ d, d ∈ (g.addDependency dependent dependency).1.dependencies dependent ↔
        d = dependency ∨ d ∈ g.dependencies dependent) ∧
      ∀ other, other ≠ dependent →
        (g.addDependency dependent dependency).1.dependencies other = g.dependencies other

theorem WellFormed.adds (wellFormed : g.WellFormed) (dependent dependency : String) :
    g.Adds dependent dependency := by
  rcases wellFormed.addDependency_cases dependent dependency with
    ⟨closes, outcome⟩ | ⟨harmless, outcome⟩
  · rw [closes_iff] at closes
    have keeps := (g.node_keepsEdges dependent).trans (node_keepsEdges _ dependency)
    exact
      { refused_iff := by simp [outcome, closes]
        accepted_iff := by simp [outcome, closes]
        kept := fun _ => by rwa [outcome]
        added := fun accepted => by simp [outcome] at accepted }
  · rw [closes_iff] at harmless
    have edges := wellFormed.mem_dependencies_addDependency outcome
    exact
      { refused_iff := by simp [outcome, harmless]
        accepted_iff := by simp [outcome, harmless]
        kept := fun refused => absurd (by rw [outcome]) refused
        added := fun _ => by rwa [outcome] }

/-- **How a list of dependencies is taken.**  It is refused exactly if one of them is the
dependent itself or gets there through the edges of other nodes, and the first that does
is told; then all edges stay.  Otherwise the dependent depends on the listed names and
on no other. -/
structure Replaces (g : DependencyGraph) (dependent : String) (dependencies : List String) :
    Prop where
  refused_iff : (g.setDependencies dependent dependencies).2 ≠ .ok () ↔
    ∃ d ∈ dependencies, g.Closes dependent d
  told : ∀ cycle, (g.setDependencies dependent dependencies).2 = .error cycle →
    cycle.dependent = dependent ∧
      ∃ before after, dependencies = before ++ cycle.dependency :: after ∧
        g.Closes dependent cycle.dependency ∧ ∀ e ∈ before, ¬g.Closes dependent e
  kept : (g.setDependencies dependent dependencies).2 ≠ .ok () →
    g.KeepsEdges (g.setDependencies dependent dependencies).1
  replaced : (g.setDependencies dependent dependencies).2 = .ok () →
    (∀ d, d ∈ (g.setDependencies dependent dependencies).1.dependencies dependent ↔
        d ∈ dependencies) ∧
      ∀ other, other ≠ dependent →
        (g.setDependencies dependent dependencies).1.dependencies other = g.dependencies other

theorem WellFormed.replaces (wellFormed : g.WellFormed) (dependent : String)
    (dependencies : List String) : g.Replaces dependent dependencies := by
  rcases wellFormed.setDependencies_cases dependent dependencies with
    ⟨harmless, h, outcome, _⟩ | ⟨before, d, after, h, split, closes, none', outcome, _, _, keeps⟩
  · obtain ⟨_, here, elsewhere⟩ := wellFormed.setDependencies outcome
    exact
      { refused_iff := by simpa [outcome] using harmless
        told := fun cycle refused => by simp [outcome] at refused
        kept := fun refused => absurd (by rw [outcome]) refused
        replaced := fun _ => by
          rw [outcome]
          exact ⟨here, elsewhere⟩ }
  · have there : d ∈ dependencies := split ▸ List.mem_append_right _ (List.mem_cons_self ..)
    exact
      { refused_iff := by simpa [outcome] using ⟨d, there, closes⟩
        told := fun cycle refused => by
          rw [outcome] at refused
          obtain rfl := Except.error.inj refused
          exact ⟨rfl, before, after, split, closes, none'⟩
        kept := fun _ => by rwa [outcome]
        replaced := fun accepted => by simp [outcome] at accepted }

/-- **The edges after any changes.**  Nothing depends on itself, each edge is known on
both of its ends, and the number of a name is its place among the names in the order in
which they were first asked for.  Of further edges exactly those that close a cycle are
refused, alone or in a list, and a refusal leaves all edges as they are. -/
theorem edges_of_changes (changes : List Change) :
    let g := changes.foldl perform empty
    (∀ name, ¬g.Follows name name) ∧
      (∀ i j, j ∈ g.dependenciesOf i ↔ i ∈ g.dependentsOf j) ∧
      (∀ name i, g.idOf? name = some i ↔ (empty.askedIn changes).eraseDups[i]? = some name) ∧
      (∀ name, (g.node name).1.idOf? name = some (g.node name).2) ∧
      (∀ dependent dependency, g.Adds dependent dependency) ∧
      ∀ dependent dependencies, g.Replaces dependent dependencies := by
  intro g
  have wellFormed : g.WellFormed := WellFormed.empty.foldl_perform changes
  have names : g.names = (empty.askedIn changes).eraseDups :=
    (WellFormed.empty.names_foldl_perform changes).trans (foldl_enter_nil _)
  refine ⟨wellFormed.not_follows_self, wellFormed.mirrored, fun name i => ?_, fun name => ?_,
    wellFormed.adds, wellFormed.replaces⟩
  · rw [idOf?_eq_some_iff wellFormed.names_nodup, ← names]
    constructor
    · rintro ⟨known, rfl⟩
      exact g.names_getElem? i known
    · intro found
      have known : i < g.size := by
        rw [← length_names]
        exact (List.getElem?_eq_some_iff.1 found).1
      rw [g.names_getElem? i known] at found
      exact ⟨known, Option.some.inj found⟩
  · exact (idOf?_eq_some_iff (node_names_nodup wellFormed.names_nodup name)).2 (g.node_id name)

/-- A list that is refused late: the old dependency is back, and the name in front of the
refused one is known. -/
example :
    let g := [Change.setDependencies "b" ["a"], .setDependencies "c" ["b"],
      .setDependencies "b" ["x", "c", "y"]].foldl perform empty
    g.dependencies "b" = ["a"] ∧ g.idOf? "x" = some 3 ∧ g.idOf? "y" = none := by decide

end PulseSequencer.DependencyGraph
