/-
# PulseSequencer.DependencyGraph -- which named values follow from which

Nodes are numbered in the order in which their names came in.  An edge from a
dependent to a dependency says that the dependent is evaluated again whenever
the dependency changes.  An edge that would close a cycle is refused and changes
no edge.
-/

namespace PulseSequencer

set_option autoImplicit false

/-- A named value, the nodes it depends on, and the nodes that depend on it. -/
structure DependencyNode where
  name : String
  dependencies : List Nat := []
  dependents : List Nat := []
deriving Repr, DecidableEq

/-- The node with number `i` is the `i`-th of the list. -/
structure DependencyGraph where
  nodes : List DependencyNode := []
deriving Repr, DecidableEq

/-- The edge `dependent → dependency` would close a cycle. -/
structure DependencyCycle where
  dependent : String
  dependency : String
deriving Repr, DecidableEq

def DependencyCycle.message (c : DependencyCycle) : String :=
  "Dependency of '" ++ c.dependent ++ "' on '" ++ c.dependency ++ "' would create a cycle"

namespace DependencyGraph

def empty : DependencyGraph := {}

def size (g : DependencyGraph) : Nat := g.nodes.length

def idOf? (g : DependencyGraph) (name : String) : Option Nat :=
  g.nodes.findIdx? fun node => node.name == name

def contains (g : DependencyGraph) (name : String) : Bool := (g.idOf? name).isSome

def nameOf (g : DependencyGraph) (id : Nat) : String :=
  match g.nodes[id]? with
  | some node => node.name
  | none => ""

def dependenciesOf (g : DependencyGraph) (id : Nat) : List Nat :=
  match g.nodes[id]? with
  | some node => node.dependencies
  | none => []

def dependentsOf (g : DependencyGraph) (id : Nat) : List Nat :=
  match g.nodes[id]? with
  | some node => node.dependents
  | none => []

/-- The number of a name, which becomes a new last node if it is unknown. -/
def node (g : DependencyGraph) (name : String) : DependencyGraph × Nat :=
  match g.idOf? name with
  | some id => (g, id)
  | none => (⟨g.nodes ++ [{ name }]⟩, g.size)

def edgeCount (g : DependencyGraph) : Nat :=
  (g.nodes.flatMap fun node => node.dependencies).length

/-- Whether `target` can be reached from a node of the stack along dependencies;
nodes already seen are not entered again.  Every step takes one node off the
stack, and only a node's first visit puts its dependencies on it. -/
def search (g : DependencyGraph) (target : Nat) : Nat → List Nat → List Nat → Bool
  | 0, _, _ => false
  | _ + 1, [], _ => false
  | fuel + 1, id :: stack, seen =>
      if id = target then true
      else if id ∈ seen then g.search target fuel stack seen
      else g.search target fuel (g.dependenciesOf id ++ stack) (id :: seen)

def reaches (g : DependencyGraph) (source target : Nat) : Bool :=
  g.search target (g.edgeCount + 2) [source] []

def insertNew (id : Nat) (ids : List Nat) : List Nat := if id ∈ ids then ids else ids ++ [id]

def modifyNode (g : DependencyGraph) (id : Nat) (f : DependencyNode → DependencyNode) :
    DependencyGraph :=
  ⟨g.nodes.modify id f⟩

/-- Writes an edge on both of its ends. -/
def link (g : DependencyGraph) (source target : Nat) : DependencyGraph :=
  (g.modifyNode source fun n => { n with dependencies := insertNew target n.dependencies }).modifyNode
    target fun n => { n with dependents := insertNew source n.dependents }

/-- Removes all edges that lead out of a node. -/
def unlinkAll (g : DependencyGraph) (source : Nat) : DependencyGraph :=
  let cut := (g.dependenciesOf source).foldl
    (fun (g : DependencyGraph) target =>
      g.modifyNode target fun n => { n with dependents := n.dependents.filter (· ≠ source) }) g
  cut.modifyNode source fun n => { n with dependencies := [] }

/-- Adds one edge.  Both names become nodes even if the edge is refused. -/
def addDependency (g : DependencyGraph) (dependent dependency : String) :
    DependencyGraph × Except DependencyCycle Unit :=
  let (g, source) := g.node dependent
  let (g, target) := g.node dependency
  if g.reaches target source then (g, .error ⟨dependent, dependency⟩)
  else (g.link source target, .ok ())

def clearDependencies (g : DependencyGraph) (dependent : String) : DependencyGraph :=
  match g.idOf? dependent with
  | some source => g.unlinkAll source
  | none => g

/-- Adds edges up to the first that is refused. -/
def addAll (g : DependencyGraph) (dependent : String) :
    List String → DependencyGraph × Except DependencyCycle Unit
  | [] => (g, .ok ())
  | dependency :: rest =>
      match g.addDependency dependent dependency with
      | (g, .ok ()) => g.addAll dependent rest
      | (g, .error cycle) => (g, .error cycle)

/-- Replaces the dependencies of a name; if one is refused the old ones stay. -/
def setDependencies (g : DependencyGraph) (dependent : String) (dependencies : List String) :
    DependencyGraph × Except DependencyCycle Unit :=
  let (g, source) := g.node dependent
  let previous := g.dependenciesOf source
  match (g.unlinkAll source).addAll dependent dependencies with
  | (g, .ok ()) => (g, .ok ())
  | (g, .error cycle) =>
      (previous.foldl (fun g target => g.link source target) (g.unlinkAll source), .error cycle)

/-- The names that a name depends on directly, in the order of their edges. -/
def dependencies (g : DependencyGraph) (name : String) : List String :=
  match g.idOf? name with
  | some id => (g.dependenciesOf id).map g.nameOf
  | none => []

/-! ## Propagation -/

/-- Everything found from the nodes of the queue along dependents, in order of
discovery. -/
def spread (g : DependencyGraph) : Nat → List Nat → List Nat → List Nat
  | 0, _, found => found
  | _ + 1, [], found => found
  | fuel + 1, id :: queue, found =>
      let fresh := (g.dependentsOf id).filter fun d => d ∉ found
      g.spread fuel (queue ++ fresh) (found ++ fresh)

/-- The nodes that depend on a node, directly or through others. -/
def affected (g : DependencyGraph) (id : Nat) : List Nat := g.spread (g.size + 1) [id] []

/-- How many dependencies of a node lie in a set of nodes. -/
def pendingIn (g : DependencyGraph) (nodes : List Nat) (id : Nat) : Nat :=
  ((g.dependenciesOf id).filter fun d => d ∈ nodes).length

/-- Counts one dependency of each dependent as done; those without any left join
the queue. -/
def release (pending : List (Nat × Nat)) (ready : List Nat) :
    List Nat → List (Nat × Nat) × List Nat
  | [] => (pending, ready)
  | d :: rest =>
      match pending.lookup d with
      | none => release pending ready rest
      | some count =>
          let pending := pending.map fun (id, n) => if id = d then (id, n - 1) else (id, n)
          release pending (if count - 1 = 0 then ready ++ [d] else ready) rest

/-- Takes ready nodes one after the other. -/
def settle (g : DependencyGraph) : Nat → List (Nat × Nat) → List Nat → List Nat
  | 0, _, _ => []
  | _ + 1, _, [] => []
  | fuel + 1, pending, id :: ready =>
      let (pending, ready) := release pending ready (g.dependentsOf id)
      id :: g.settle fuel pending ready

/-- The names that depend on `changed`, each after all of its dependencies among
them. -/
def propagationOrder (g : DependencyGraph) (changed : String) : List String :=
  match g.idOf? changed with
  | none => []
  | some start =>
      let nodes := g.affected start
      let pending := nodes.map fun id => (id, g.pendingIn nodes id)
      let ready := nodes.filter fun id => g.pendingIn nodes id = 0
      (g.settle (g.size + 1) pending ready).map g.nameOf

end DependencyGraph

end PulseSequencer
