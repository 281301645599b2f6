import PulseSequencer.Proofs.Program.Ancestry
import Mathlib.Logic.Relation

/-
# PulseSequencer.Proofs.Program.ParentLinks -- the way up ends

A walk goes from a context to its parent, on to the parent of that one, and so on; nothing
but the links themselves can make it end.  In a store that calls lead to it goes along the
ancestry of the context (`Ancestry.walk_eq`), and is over after as many steps as there are
contexts.  Whether a new link would close a cycle is decided by such a walk, from the new
parent up: it meets exactly the parent and the contexts above it (`Ancestry.meets_iff`).

Main statement: `links_of_calls`.
-/

namespace PulseSequencer.ContextStore

set_option autoImplicit false

/-! ## Links -/

/-- A context has another one as its parent. -/
def Under (s : ContextStore) (name parent : String) : Prop :=
  ∃ c, s.get? name = some c ∧ c.parent = some parent

/-- A context is an ancestor of another one. -/
def Above (s : ContextStore) (name ancestor : String) : Prop :=
  Relation.TransGen s.Under name ancestor

/-- Where the way up from a context is after some steps, unless it has ended. -/
def walk (s : ContextStore) (name : String) : Nat → Option Context
  | 0 => s.get? name
  | steps + 1 => (s.walk name steps).bind fun c => c.parent.bind s.get?

@[simp] theorem walk_zero (s : ContextStore) (name : String) : s.walk name 0 = s.get? name := rfl

theorem walk_succ (s : ContextStore) (name : String) (steps : Nat) :
    s.walk name (steps + 1) = (s.walk name steps).bind fun c => c.parent.bind s.get? := rfl

section

variable {s : ContextStore} {c : Context} {name parent : String} {chain : List Context}

theorem walk_eq_none (unknown : s.get? name = none) (steps : Nat) : s.walk name steps = none := by
  induction steps with
  | zero => exact unknown
  | succ steps ih => rw [walk_succ, ih, Option.bind_none]

theorem walk_of_top (stored : s.get? name = some c) (top : c.parent = none) (steps : Nat) :
    s.walk name (steps + 1) = none := by
  induction steps with
  | zero => rw [walk_succ, walk_zero, stored, Option.bind_some, top, Option.bind_none]
  | succ steps ih => rw [walk_succ, ih, Option.bind_none]

/-- The way up goes on as the way up from the parent. -/
theorem walk_of_under (stored : s.get? name = some c) (under : c.parent = some parent)
    (steps : Nat) : s.walk name (steps + 1) = s.walk parent steps := by
  induction steps with
  | zero => rw [walk_succ, walk_zero, stored, Option.bind_some, under, Option.bind_some, walk_zero]
  | succ steps ih => rw [walk_succ, ih, walk_succ]

/-- **The way up is the ancestry.** -/
theorem Ancestry.walk_eq (ancestry : Ancestry s name chain) (steps : Nat) :
    s.walk name steps = chain[steps]? := by
  induction ancestry generalizing steps with
  | root stored top =>
      cases steps with
      | zero => exact stored
      | succ steps => exact walk_of_top stored top steps
  | child stored under _ ih =>
      cases steps with
      | zero => exact stored
      | succ steps => rw [walk_of_under stored under, ih, List.getElem?_cons_succ]

/-- The way up from a context meets the context itself and those above it. -/
theorem Ancestry.meets_iff (rooted : Rooted s) (ancestry : Ancestry s name chain) {other : String} :
    other ∈ chain.map Context.name ↔ other = name ∨ s.Above name other := by
  induction ancestry with
  | @root name c stored top =>
      have none' : ¬s.Above name other := fun above => by
        obtain ⟨_, ⟨d, stored', under⟩, _⟩ := Relation.TransGen.head'_iff.1 above
        obtain rfl := Option.some.inj (stored.symm.trans stored')
        exact absurd (top.symm.trans under) (by simp)
      rw [List.map_singleton, List.mem_singleton, rooted.named name c stored, or_iff_left none']
  | @child name parent c older stored under _ ih =>
      have onward : s.Above name other ↔ other = parent ∨ s.Above parent other := by
        refine Relation.TransGen.head'_iff.trans ⟨?_, fun way => ⟨parent, ⟨c, stored, under⟩, ?_⟩⟩
        · rintro ⟨next, ⟨d, stored', under'⟩, way⟩
          obtain rfl := Option.some.inj (stored.symm.trans stored')
          obtain rfl := Option.some.inj (under.symm.trans under')
          exact Relation.reflTransGen_iff_eq_or_transGen.1 way
        · exact Relation.reflTransGen_iff_eq_or_transGen.2 way
      rw [List.map_cons, List.mem_cons, ih, rooted.named name c stored, onward]

/-- No context is above itself. -/
theorem Rooted.not_above_self (rooted : Rooted s) (name : String) : ¬s.Above name name := by
  intro above
  obtain ⟨parent, ⟨c, stored, under⟩, way⟩ := Relation.TransGen.head'_iff.1 above
  obtain ⟨chain, ancestry⟩ := rooted.ancestry name c stored
  have once := ancestry.nodup rooted
  cases ancestry with
  | root stored' top =>
      obtain rfl := Option.some.inj (stored.symm.trans stored')
      exact absurd (top.symm.trans under) (by simp)
  | child stored' under' older =>
      obtain rfl := Option.some.inj (stored.symm.trans stored')
      obtain rfl := Option.some.inj (under.symm.trans under')
      refine (List.nodup_cons.1 once).1 ?_
      rw [rooted.named name c stored]
      exact (older.meets_iff rooted).2 (Relation.reflTransGen_iff_eq_or_transGen.1 way)

/-- **The way up ends**, after at most as many steps as there are contexts. -/
theorem Rooted.walk_ends (rooted : Rooted s) (name : String) :
    s.walk name s.contexts.size = none := by
  cases stored : s.get? name with
  | none => exact walk_eq_none stored _
  | some c =>
      obtain ⟨chain, ancestry⟩ := rooted.ancestry name c stored
      rw [ancestry.walk_eq, List.getElem?_eq_none (ancestry.length_le rooted)]

/-! ## New links -/

variable {child : String}

theorem setParent_of_unknown (unknown : s.get? child = none) (parent : Option String) :
    s.setParent child parent = .error (.unknown child) := by
  rw [setParent, unknown]
  rfl

theorem setParent_of_unknown_parent (stored : s.get? child = some c)
    (unknown : s.get? parent = none) :
    s.setParent child (some parent) = .error (.unknown parent) := by
  have absent : s.contexts.contains parent = false := congrArg Option.isSome unknown
  rw [setParent, stored]
  dsimp only
  rw [absent]
  rfl

/-- A new link between contexts that are there is refused exactly if the child is met on the
way up from the parent. -/
theorem setParent_of_known {d : Context} (stored : s.get? child = some c)
    (known : s.get? parent = some d) :
    s.setParent child (some parent) =
      if child ∈ (s.chain parent).map Context.name then .error (.cycle child parent)
      else .ok ⟨s.contexts.insert child { c with parent := some parent }⟩ := by
  have there : s.contexts.contains parent = true := congrArg Option.isSome known
  have met : ((s.chain parent).any fun ancestor => ancestor.name == child) =
      decide (child ∈ (s.chain parent).map Context.name) := by
    rw [Bool.eq_iff_iff, List.any_eq_true, decide_eq_true_iff, List.mem_map]
    simp only [beq_iff_eq]
  rw [setParent, stored]
  dsimp only
  rw [there, met]
  by_cases cycle : child ∈ (s.chain parent).map Context.name
  · rw [if_pos cycle, decide_eq_true cycle]
    rfl
  · rw [if_neg cycle, decide_eq_false cycle]
    rfl

theorem Rooted.setParent_eq_cycle_iff (rooted : Rooted s) {a b : String} :
    s.setParent child (some parent) = .error (.cycle a b) ↔
      (a = child ∧ b = parent) ∧ (∃ c, s.get? child = some c) ∧ (∃ d, s.get? parent = some d) ∧
        (child = parent ∨ s.Above parent child) := by
  cases stored : s.get? child with
  | none => simp [setParent_of_unknown stored]
  | some c =>
      cases known : s.get? parent with
      | none => simp [setParent_of_unknown_parent stored known]
      | some d =>
          obtain ⟨chain, ancestry⟩ := rooted.ancestry parent d known
          rw [setParent_of_known stored known, rooted.chain_eq ancestry,
            ← ancestry.meets_iff rooted]
          by_cases cycle : child ∈ chain.map Context.name
          · simp [cycle, eq_comm]
          · simp [cycle]

/-! ## Calls -/

/-- What is asked of a store.  A context comes without a parent. -/
inductive Call where
  | insert (c : Context) (fresh : c.parent = none)
  | setParent (child : String) (parent : Option String)

/-- Answers a call; one that is refused leaves the store as it is, with the reason. -/
def call (s : ContextStore) : Call → ContextStore × Option ContextError
  | .insert c _ => (s.insert c, none)
  | .setParent child parent =>
      match s.setParent child parent with
      | .ok next => (next, none)
      | .error e => (s, some e)

/-- A call that is refused changes nothing. -/
theorem call_of_refused {c : Call} (refused : (s.call c).2.isSome = true) : (s.call c).1 = s := by
  cases c with
  | insert c fresh => exact absurd refused Bool.false_ne_true
  | setParent child parent =>
      rw [call] at refused ⊢
      split at refused
      · exact absurd refused Bool.false_ne_true
      · rfl

/-- The store behind calls. -/
def afterCalls (calls : List Call) : ContextStore :=
  calls.foldl (fun s c => (s.call c).1) .empty

theorem Reached.call (reached : Reached s) (c : Call) : Reached (s.call c).1 := by
  cases c with
  | insert c fresh => exact reached.insert fresh
  | setParent child parent =>
      rw [ContextStore.call]
      split
      · rename_i done
        exact reached.setParent done
      · exact reached

theorem reached_afterCalls (calls : List Call) : Reached (afterCalls calls) := by
  suffices ∀ s, Reached s → Reached (calls.foldl (fun s c => (s.call c).1) s) from this _ .empty
  induction calls with
  | nil => exact fun _ reached => reached
  | cons c rest ih => exact fun s reached => ih _ (reached.call c)

/-- **Parent links close no cycle.**  Whatever calls come: no context is above itself; the way up
from any context is over after at most as many steps as there are contexts, and the chain that
is followed and laid down is the whole of it.  A new link is refused as a cycle exactly if both
contexts are there and the child is the parent or above it, and a call that is refused
changes nothing. -/
theorem links_of_calls (calls : List Call) :
    let s := afterCalls calls
    (∀ name, ¬s.Above name name) ∧
    (∀ name, s.walk name s.contexts.size = none) ∧
    (∀ name c, s.get? name = some c → ∃ visited,
      visited.length ≤ s.contexts.size ∧ (∀ steps, s.walk name steps = visited[steps]?) ∧
      s.chain name = visited ∧
      ∀ globals, s.resolve name globals = visited.reverse.foldlM (addContext globals)
        { sourceFile := c.sourceFile, ramFile := c.ramFile }) ∧
    (∀ child parent a b, s.setParent child (some parent) = .error (.cycle a b) ↔
      (a = child ∧ b = parent) ∧ (∃ c, s.get? child = some c) ∧ (∃ d, s.get? parent = some d) ∧
        (child = parent ∨ s.Above parent child)) ∧
    ∀ c, (s.call c).2.isSome = true → (s.call c).1 = s := by
  intro s
  have rooted : Rooted s := (reached_afterCalls calls).rooted
  refine ⟨rooted.not_above_self, rooted.walk_ends, fun name c stored => ?_,
    fun child parent a b => rooted.setParent_eq_cycle_iff, fun c => call_of_refused⟩
  obtain ⟨chain, ancestry⟩ := rooted.ancestry name c stored
  have followed := rooted.chain_eq ancestry
  refine ⟨chain, ancestry.length_le rooted, ancestry.walk_eq, followed, fun globals => ?_⟩
  rw [resolve, stored, followed]

/-- A link that would close a cycle can be made once the context in the middle is replaced,
which has no parent then. -/
example :
    let base : Call := .insert { name := "base" } rfl
    let lab : Call := .insert { name := "lab" } rfl
    let s := afterCalls [base, lab, .setParent "lab" (some "base")]
    (s.call (.setParent "base" (some "lab"))).2 = some (.cycle "base" "lab") ∧
    ((s.call lab).1.call (.setParent "base" (some "lab"))).2 = none :=
  ⟨rfl, rfl⟩

end

end PulseSequencer.ContextStore
