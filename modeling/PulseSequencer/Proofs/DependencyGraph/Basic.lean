import PulseSequencer.DependencyGraph
import Mathlib.Logic.Relation
import Mathlib.Data.List.Nodup

/-
# PulseSequencer.Proofs.DependencyGraph.Basic -- what each change does to the edges

An edge is written on both of its ends, and nodes are told apart by their names.
`WellFormed` says that the two ends agree, that no edge or name comes twice and that
the edges close no cycle.  Every change of a graph is described by the dependencies
and dependents that it leaves at a node, and keeps `WellFormed`: `WellFormed.node`,
`WellFormed.unlinkAll` and `WellFormed.link`.
-/

namespace PulseSequencer.DependencyGraph

set_option autoImplicit false

variable {g : DependencyGraph}

/-! ## Names and numbers -/

def names (g : DependencyGraph) : List String := g.nodes.map fun node => node.name

@[simp] theorem length_names (g : DependencyGraph) : g.names.length = g.size := by
  simp only [names, size, List.length_map]

theorem names_getElem? (g : DependencyGraph) (id : Nat) (known : id < g.size) :
    g.names[id]? = some (g.nameOf id) := by
  have known : id < g.nodes.length := known
  simp only [names, nameOf, List.getElem?_map, List.getElem?_eq_getElem known, Option.map_some]

theorem idOf?_eq_findIdx? (g : DependencyGraph) (name : String) :
    g.idOf? name = g.names.findIdx? (· == name) := by
  simp only [idOf?, names, List.findIdx?_map]
  rfl

/-- The number of a name belongs to a node of that name. -/
theorem nameOf_of_idOf? {name : String} {id : Nat} (found : g.idOf? name = some id) :
    id < g.size ∧ g.nameOf id = name := by
  rw [idOf?, List.findIdx?_eq_some_iff_getElem] at found
  obtain ⟨known, same, _⟩ := found
  refine ⟨known, ?_⟩
  simpa only [nameOf, List.getElem?_eq_getElem known, beq_iff_eq] using same

theorem idOf?_nameOf (distinct : g.names.Nodup) {id : Nat} (known : id < g.size) :
    g.idOf? (g.nameOf id) = some id := by
  have there : (g.idOf? (g.nameOf id)).isSome := by
    rw [idOf?_eq_findIdx?, List.findIdx?_isSome, List.any_eq_true]
    exact ⟨_, List.mem_of_getElem? (g.names_getElem? id known), beq_self_eq_true _⟩
  obtain ⟨other, found⟩ := Option.isSome_iff_exists.1 there
  obtain ⟨otherKnown, same⟩ := nameOf_of_idOf? found
  have equal : g.names[other]? = g.names[id]? := by
    rw [g.names_getElem? other otherKnown, g.names_getElem? id known, same]
  rw [found, (List.getElem?_inj (by simpa using otherKnown) distinct).1 equal]

theorem nameOf_inj (distinct : g.names.Nodup) {i j : Nat} (iKnown : i < g.size)
    (jKnown : j < g.size) (same : g.nameOf i = g.nameOf j) : i = j := by
  have found := idOf?_nameOf distinct iKnown
  rw [same, idOf?_nameOf distinct jKnown] at found
  exact (Option.some.inj found).symm

theorem idOf?_eq_some_iff (distinct : g.names.Nodup) {name : String} {id : Nat} :
    g.idOf? name = some id ↔ id < g.size ∧ g.nameOf id = name := by
  refine ⟨nameOf_of_idOf?, ?_⟩
  rintro ⟨known, rfl⟩
  exact idOf?_nameOf distinct known

/-! ## Edges at a node -/

theorem dependenciesOf_of_size_le {id : Nat} (beyond : g.size ≤ id) :
    g.dependenciesOf id = [] := by
  rw [dependenciesOf, List.getElem?_eq_none beyond]

theorem dependentsOf_of_size_le {id : Nat} (beyond : g.size ≤ id) : g.dependentsOf id = [] := by
  rw [dependentsOf, List.getElem?_eq_none beyond]

theorem lt_size_of_mem_dependenciesOf {id d : Nat} (edge : d ∈ g.dependenciesOf id) :
    id < g.size := by
  by_contra beyond
  rw [dependenciesOf_of_size_le (by omega)] at edge
  exact List.not_mem_nil edge

theorem lt_size_of_mem_dependentsOf {id d : Nat} (edge : d ∈ g.dependentsOf id) :
    id < g.size := by
  by_contra beyond
  rw [dependentsOf_of_size_le (by omega)] at edge
  exact List.not_mem_nil edge

/-- Whether a node depends on another, on itself at least, directly or through others. -/
def Leads (g : DependencyGraph) : Nat → Nat → Prop :=
  Relation.ReflTransGen fun i j => j ∈ g.dependenciesOf i

theorem Leads.refl (g : DependencyGraph) (i : Nat) : g.Leads i i := Relation.ReflTransGen.refl

theorem Leads.head {i j k : Nat} (edge : j ∈ g.dependenciesOf i) (way : g.Leads j k) :
    g.Leads i k := Relation.ReflTransGen.head edge way

/-- One node's edges point back to it, no edge or name comes twice, and every edge
leads to a node of a smaller rank. -/
structure WellFormed (g : DependencyGraph) : Prop where
  names_nodup : g.names.Nodup
  mirrored : ∀ i j, j ∈ g.dependenciesOf i ↔ i ∈ g.dependentsOf j
  dependencies_nodup : ∀ i, (g.dependenciesOf i).Nodup
  dependents_nodup : ∀ i, (g.dependentsOf i).Nodup
  ranked : ∃ rank : Nat → Nat, ∀ i j, j ∈ g.dependenciesOf i → rank j < rank i

theorem WellFormed.target_lt {i j : Nat} (wellFormed : g.WellFormed)
    (edge : j ∈ g.dependenciesOf i) : j < g.size :=
  lt_size_of_mem_dependentsOf ((wellFormed.mirrored i j).1 edge)

theorem WellFormed.empty : empty.WellFormed where
  names_nodup := List.nodup_nil
  mirrored _ _ :=
    ⟨fun edge => absurd edge List.not_mem_nil, fun edge => absurd edge List.not_mem_nil⟩
  dependencies_nodup _ := List.nodup_nil
  dependents_nodup _ := List.nodup_nil
  ranked := ⟨fun _ => 0, fun _ _ edge => absurd edge List.not_mem_nil⟩

/-! ## A new node -/

/-- Two graphs with the same edges. -/
structure SameEdges (g h : DependencyGraph) : Prop where
  dependenciesOf : ∀ i, h.dependenciesOf i = g.dependenciesOf i
  dependentsOf : ∀ i, h.dependentsOf i = g.dependentsOf i

theorem node_sameEdges (g : DependencyGraph) (name : String) : g.SameEdges (g.node name).1 := by
  unfold node
  cases g.idOf? name with
  | some id => exact ⟨fun _ => rfl, fun _ => rfl⟩
  | none =>
      have read : ∀ i : Nat, (g.nodes ++ [({ name } : DependencyNode)])[i]? = g.nodes[i]? ∨
          g.nodes[i]? = none ∧ (g.nodes ++ [({ name } : DependencyNode)])[i]? =
            some (DependencyNode.mk name [] []) := by
        intro i
        rcases Nat.lt_trichotomy i g.nodes.length with below | rfl | above
        · exact .inl (List.getElem?_append_left below)
        · exact .inr ⟨List.getElem?_eq_none (Nat.le_refl _), List.getElem?_concat_length⟩
        · refine .inl ?_
          rw [List.getElem?_eq_none (by simp; omega), List.getElem?_eq_none (by omega)]
      constructor <;> intro i <;> rcases read i with same | ⟨absent, fresh⟩
      · simp only [DependencyGraph.dependenciesOf, same]
      · simp only [DependencyGraph.dependenciesOf, absent, fresh]
      · simp only [DependencyGraph.dependentsOf, same]
      · simp only [DependencyGraph.dependentsOf, absent, fresh]

theorem node_names (g : DependencyGraph) (name : String) :
    (g.node name).1.names = if name ∈ g.names then g.names else g.names ++ [name] := by
  have known : (g.idOf? name).isSome ↔ name ∈ g.names := by
    rw [idOf?_eq_findIdx?, List.findIdx?_isSome, List.any_eq_true]
    simp
  unfold node
  cases found : g.idOf? name with
  | some id => rw [if_pos (known.1 (by rw [found]; rfl))]
  | none =>
      rw [if_neg (by rw [← known, found]; simp)]
      simp [names]

theorem node_names_nodup (distinct : g.names.Nodup) (name : String) :
    (g.node name).1.names.Nodup := by
  rw [node_names]
  split
  · exact distinct
  · rename_i new
    exact List.nodup_append.2 ⟨distinct, List.nodup_singleton _, by
      rintro a old b fresh rfl
      exact new (List.mem_singleton.1 fresh ▸ old)⟩

theorem node_nameOf (g : DependencyGraph) (name : String) {i : Nat} (known : i < g.size) :
    (g.node name).1.nameOf i = g.nameOf i := by
  have known : i < g.nodes.length := known
  unfold node
  cases g.idOf? name with
  | some id => rfl
  | none => simp only [nameOf, List.getElem?_append_left known]

theorem size_le_node (g : DependencyGraph) (name : String) : g.size ≤ (g.node name).1.size := by
  rw [← length_names, ← length_names, node_names]
  split <;> simp

/-- The number that comes with a node belongs to the name that was asked for. -/
theorem node_id (g : DependencyGraph) (name : String) :
    (g.node name).2 < (g.node name).1.size ∧
      (g.node name).1.nameOf (g.node name).2 = name := by
  unfold node
  cases found : g.idOf? name with
  | some id => exact nameOf_of_idOf? found
  | none => exact ⟨by simp [size], by simp [nameOf, size]⟩

theorem WellFormed.node (wellFormed : g.WellFormed) (name : String) :
    (g.node name).1.WellFormed := by
  have same := g.node_sameEdges name
  refine ⟨node_names_nodup wellFormed.names_nodup name, ?_, ?_, ?_, ?_⟩
  · intro i j
    rw [same.dependenciesOf, same.dependentsOf]
    exact wellFormed.mirrored i j
  · intro i
    rw [same.dependenciesOf]
    exact wellFormed.dependencies_nodup i
  · intro i
    rw [same.dependentsOf]
    exact wellFormed.dependents_nodup i
  · obtain ⟨rank, descends⟩ := wellFormed.ranked
    refine ⟨rank, fun i j edge => descends i j ?_⟩
    rwa [same.dependenciesOf] at edge

/-! ## A new edge -/

/-- The graph with the dependencies of one node changed. -/
abbrev onDependencies (g : DependencyGraph) (id : Nat) (f : List Nat → List Nat) :
    DependencyGraph :=
  g.modifyNode id fun n => { n with dependencies := f n.dependencies }

/-- The graph with the dependents of one node changed. -/
abbrev onDependents (g : DependencyGraph) (id : Nat) (f : List Nat → List Nat) :
    DependencyGraph :=
  g.modifyNode id fun n => { n with dependents := f n.dependents }

theorem modifyNode_getElem? (g : DependencyGraph) (id : Nat)
    (f : DependencyNode → DependencyNode) (i : Nat) :
    (g.modifyNode id f).nodes[i]? = if id = i then g.nodes[i]?.map f else g.nodes[i]? := by
  simp only [modifyNode, List.getElem?_modify]
  split <;> cases g.nodes[i]? <;> rfl

theorem names_onDependencies (g : DependencyGraph) (id : Nat) (f : List Nat → List Nat) :
    (g.onDependencies id f).names = g.names := by
  refine List.ext_getElem? fun i => ?_
  simp only [names, List.getElem?_map, modifyNode_getElem?]
  split <;> cases g.nodes[i]? <;> rfl

theorem names_onDependents (g : DependencyGraph) (id : Nat) (f : List Nat → List Nat) :
    (g.onDependents id f).names = g.names := by
  refine List.ext_getElem? fun i => ?_
  simp only [names, List.getElem?_map, modifyNode_getElem?]
  split <;> cases g.nodes[i]? <;> rfl

theorem nameOf_eq_of_names {h : DependencyGraph} (same : h.names = g.names) (i : Nat) :
    h.nameOf i = g.nameOf i := by
  have read : ∀ k : DependencyGraph, k.nameOf i = (k.names[i]?).getD "" := by
    intro k
    simp only [nameOf, names, List.getElem?_map]
    cases k.nodes[i]? <;> rfl
  rw [read, read, same]

theorem size_eq_of_names {h : DependencyGraph} (same : h.names = g.names) : h.size = g.size := by
  rw [← length_names, ← length_names, same]

theorem idOf?_eq_of_names {h : DependencyGraph} (same : h.names = g.names) (name : String) :
    h.idOf? name = g.idOf? name := by
  rw [idOf?_eq_findIdx?, idOf?_eq_findIdx?, same]

theorem dependenciesOf_onDependencies {id : Nat} (known : id < g.size)
    (f : List Nat → List Nat) (i : Nat) :
    (g.onDependencies id f).dependenciesOf i =
      if i = id then f (g.dependenciesOf i) else g.dependenciesOf i := by
  have known : id < g.nodes.length := known
  simp only [dependenciesOf, modifyNode_getElem?]
  by_cases here : id = i
  · subst here
    simp only [if_true, List.getElem?_eq_getElem known, Option.map_some]
  · simp only [here, Ne.symm here, if_false]

theorem dependentsOf_onDependencies (g : DependencyGraph) (id : Nat)
    (f : List Nat → List Nat) (i : Nat) :
    (g.onDependencies id f).dependentsOf i = g.dependentsOf i := by
  simp only [dependentsOf, modifyNode_getElem?]
  by_cases here : id = i
  · simp only [here, if_true]
    cases g.nodes[i]? <;> rfl
  · simp only [here, if_false]

theorem dependentsOf_onDependents {id : Nat} (known : id < g.size)
    (f : List Nat → List Nat) (i : Nat) :
    (g.onDependents id f).dependentsOf i =
      if i = id then f (g.dependentsOf i) else g.dependentsOf i := by
  have known : id < g.nodes.length := known
  simp only [dependentsOf, modifyNode_getElem?]
  by_cases here : id = i
  · subst here
    simp only [if_true, List.getElem?_eq_getElem known, Option.map_some]
  · simp only [here, Ne.symm here, if_false]

theorem dependenciesOf_onDependents (g : DependencyGraph) (id : Nat)
    (f : List Nat → List Nat) (i : Nat) :
    (g.onDependents id f).dependenciesOf i = g.dependenciesOf i := by
  simp only [dependenciesOf, modifyNode_getElem?]
  by_cases here : id = i
  · simp only [here, if_true]
    cases g.nodes[i]? <;> rfl
  · simp only [here, if_false]

@[simp] theorem mem_insertNew {id other : Nat} {ids : List Nat} :
    other ∈ insertNew id ids ↔ other = id ∨ other ∈ ids := by
  unfold insertNew
  split
  · rename_i known
    refine ⟨.inr, ?_⟩
    rintro (rfl | old)
    · exact known
    · exact old
  · simp only [List.mem_append, List.mem_singleton, or_comm]

theorem nodup_insertNew {id : Nat} {ids : List Nat} (distinct : ids.Nodup) :
    (insertNew id ids).Nodup := by
  unfold insertNew
  split
  · exact distinct
  · rename_i new
    rw [← List.concat_eq_append]
    exact List.Nodup.concat new distinct

theorem link_eq (g : DependencyGraph) (source target : Nat) :
    g.link source target =
      (g.onDependencies source (insertNew target)).onDependents target (insertNew source) := rfl

theorem names_link (g : DependencyGraph) (source target : Nat) :
    (g.link source target).names = g.names := by
  rw [link_eq, names_onDependents, names_onDependencies]

theorem dependenciesOf_link {source : Nat} (known : source < g.size) (target i : Nat) :
    (g.link source target).dependenciesOf i =
      if i = source then insertNew target (g.dependenciesOf i) else g.dependenciesOf i := by
  rw [link_eq, dependenciesOf_onDependents, dependenciesOf_onDependencies known]

theorem dependentsOf_link {target : Nat} (known : target < g.size) (source i : Nat) :
    (g.link source target).dependentsOf i =
      if i = target then insertNew source (g.dependentsOf i) else g.dependentsOf i := by
  have known : target < (g.onDependencies source (insertNew target)).size := by
    rwa [size_eq_of_names (names_onDependencies g source _)]
  rw [link_eq, dependentsOf_onDependents known, dependentsOf_onDependencies]

/-- **A new edge keeps a graph well formed** as long as its target does not lead back
to its source. -/
theorem WellFormed.link {source target : Nat} (wellFormed : g.WellFormed)
    (sourceKnown : source < g.size) (targetKnown : target < g.size)
    (noWayBack : ¬g.Leads target source) :
    (g.link source target).WellFormed where
  names_nodup := by
    rw [names_link]
    exact wellFormed.names_nodup
  mirrored i j := by
    have mirrored := wellFormed.mirrored i j
    rw [dependenciesOf_link sourceKnown, dependentsOf_link targetKnown]
    split <;> split <;> simp_all
  dependencies_nodup i := by
    rw [dependenciesOf_link sourceKnown]
    split
    · exact nodup_insertNew (wellFormed.dependencies_nodup i)
    · exact wellFormed.dependencies_nodup i
  dependents_nodup i := by
    rw [dependentsOf_link targetKnown]
    split
    · exact nodup_insertNew (wellFormed.dependents_nodup i)
    · exact wellFormed.dependents_nodup i
  ranked := by
    classical
    obtain ⟨rank, descends⟩ := wellFormed.ranked
    -- everything that leads to the source is lifted above the target
    refine ⟨fun i => if g.Leads i source then rank i + rank target + 1 else rank i,
      fun i j edge => ?_⟩
    rw [dependenciesOf_link sourceKnown] at edge
    have old : j ∈ g.dependenciesOf i ∨ i = source ∧ j = target := by
      split at edge
      · rename_i here
        exact (mem_insertNew.1 edge).symm.imp_right fun new => ⟨here, new⟩
      · exact .inl edge
    rcases old with edge | ⟨rfl, rfl⟩
    · have lower := descends i j edge
      dsimp only
      split <;> split
      · omega
      · rename_i way noWay
        exact absurd (Leads.head edge way) noWay
      · omega
      · exact lower
    · dsimp only
      rw [if_neg noWayBack, if_pos (Leads.refl g i)]
      omega

/-! ## A node without dependencies -/

/-- The dependents of the given nodes without `source`. -/
theorem foldl_onDependents (source : Nat) (targets : List Nat) (g : DependencyGraph)
    (known : ∀ target ∈ targets, target < g.size) :
    let cut := targets.foldl
      (fun (g : DependencyGraph) target => g.onDependents target (List.filter (· ≠ source))) g
    cut.names = g.names ∧ (∀ i, cut.dependenciesOf i = g.dependenciesOf i) ∧
      ∀ i, cut.dependentsOf i =
        if i ∈ targets then (g.dependentsOf i).filter (· ≠ source) else g.dependentsOf i := by
  induction targets generalizing g with
  | nil => exact ⟨rfl, fun _ => rfl, fun _ => rfl⟩
  | cons target rest ih =>
      have same := names_onDependents g target (List.filter (· ≠ source))
      have targetKnown := known target (List.mem_cons_self ..)
      obtain ⟨names, out, back⟩ := ih (g.onDependents target (List.filter (· ≠ source)))
        fun other later => by
          rw [size_eq_of_names same]
          exact known other (List.mem_cons_of_mem _ later)
      refine ⟨names.trans same, fun i => ?_, fun i => ?_⟩
      · exact (out i).trans (dependenciesOf_onDependents ..)
      · refine (back i).trans ?_
        rw [dependentsOf_onDependents targetKnown]
        by_cases here : i = target <;> by_cases later : i ∈ rest <;>
          simp [here, later, List.filter_filter]

theorem WellFormed.unlinkAll_spec (wellFormed : g.WellFormed) {source : Nat}
    (known : source < g.size) :
    (g.unlinkAll source).names = g.names ∧
      (∀ i, (g.unlinkAll source).dependenciesOf i =
        if i = source then [] else g.dependenciesOf i) ∧
      ∀ i, (g.unlinkAll source).dependentsOf i = (g.dependentsOf i).filter (· ≠ source) := by
  obtain ⟨names, out, back⟩ := foldl_onDependents source (g.dependenciesOf source) g
    fun _ edge => wellFormed.target_lt edge
  have cutSize := (size_eq_of_names names).symm ▸ known
  unfold unlinkAll
  refine ⟨?_, fun i => ?_, fun i => ?_⟩
  · exact (names_onDependencies _ source fun _ => []).trans names
  · refine (dependenciesOf_onDependencies cutSize (fun _ => []) i).trans ?_
    rw [out]
  · refine (dependentsOf_onDependencies _ source (fun _ => []) i).trans ?_
    rw [back]
    split
    · rfl
    · rename_i noEdge
      refine (List.filter_eq_self.2 fun d edge => decide_eq_true ?_).symm
      rintro rfl
      exact noEdge ((wellFormed.mirrored d i).2 edge)

theorem WellFormed.unlinkAll (wellFormed : g.WellFormed) {source : Nat}
    (known : source < g.size) : (g.unlinkAll source).WellFormed := by
  obtain ⟨names, out, back⟩ := wellFormed.unlinkAll_spec known
  refine ⟨?_, fun i j => ?_, fun i => ?_, fun i => ?_, ?_⟩
  · rw [names]
    exact wellFormed.names_nodup
  · rw [out, back, List.mem_filter, ← wellFormed.mirrored i j]
    split <;> simp [*]
  · rw [out]
    split
    · exact List.nodup_nil
    · exact wellFormed.dependencies_nodup i
  · rw [back]
    exact (wellFormed.dependents_nodup i).filter _
  · obtain ⟨rank, descends⟩ := wellFormed.ranked
    refine ⟨rank, fun i j edge => ?_⟩
    rw [out] at edge
    split at edge
    · exact absurd edge List.not_mem_nil
    · exact descends i j edge

end PulseSequencer.DependencyGraph
