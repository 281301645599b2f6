import PulseSequencer.Ppp.Scope
import PulseSequencer.Proofs.Table

/-
# PulseSequencer.Proofs.Ppp.Scoping -- what names stand for in a tree of scopes

Scopes grow into a tree from the scope of the commands.  A scope reads the scopes around
it, so these must not change while it is in use: a call that changes a scope closes the
scopes inside it (`ScopeTree.change`).  What the calls did is kept in a history, and what
a name stands for is told by the history alone (`StandsFor`).

Whether a name is that of a command is decided by a look-up, which finds the innermost
definition and no more.  It is right because no scope but the outermost one ever defines the
name of a command (`Sound.commands`), which each definition keeps since the look-up was right
before it (`Sound.lookup_builtin`).

Main statement: `scopes_of_calls`.
-/

namespace PulseSequencer.Ppp

set_option autoImplicit false

/-! ## One scope -/

theorem lookup_of_symbols {s : Scope} {name : String} {symbol : Symbol}
    (here : s.symbols.get? name = some symbol) : s.lookup name = some symbol := by
  rw [Scope.lookup, Scope.lookupOuter, List.findSome?_cons, here]

namespace Scope

variable {s next : Scope} {name : String} {symbol existing : Symbol}

theorem lookup_eq (s : Scope) (name : String) :
    s.lookup name = (s.symbols.get? name).or (lookupOuter s.outer name) := by
  rw [lookup, lookupOuter, findSome?_cons_eq_or, lookupOuter]

/-- Behind the names of its own a scope reads the scope around it. -/
theorem lookup_inside {m : Scope} (outer : s.outer = m.symbols :: m.outer)
    (free : s.symbols.get? name = none) : s.lookup name = m.lookup name := by
  rw [lookup_eq, free, Option.none_or, outer, lookup]

/-- A name is refused with the symbol that it stands for, if the scope itself has it or it is
that of a command. -/
theorem define_eq_error_iff : s.define name symbol = .error existing ↔
    s.lookup name = some existing ∧
      (s.symbols.get? name = some existing ∨ ∃ b, existing = .builtin b) := by
  rw [define, lookup_eq]
  cases own : s.symbols.get? name with
  | some x =>
      simp only [Except.error.injEq, Option.some_or, Option.some.injEq]
      exact ⟨fun same => ⟨same, .inl same⟩, And.left⟩
  | none =>
      cases around : lookupOuter s.outer name with
      | none => simp
      | some x => cases x <;> simp +contextual [eq_comm]

theorem define_eq_ok_iff : s.define name symbol = .ok next ↔
    s.symbols.get? name = none ∧ (∀ b, s.lookup name ≠ some (.builtin b)) ∧
      next = { s with symbols := s.symbols.insert name symbol } := by
  rw [define, lookup_eq]
  cases own : s.symbols.get? name with
  | some x => simp
  | none =>
      cases around : lookupOuter s.outer name with
      | none => simp [eq_comm]
      | some x => cases x <;> simp [eq_comm]

theorem nodup_commands :
    ((Builtin.all.map fun b => (b.name, Symbol.builtin b)).map Prod.fst).Nodup := by
  rw [List.map_map]
  decide

/-- The outermost scope has the commands, each under its name. -/
theorem get?_predefined :
    predefined.symbols.get? name = some symbol ↔
      ∃ b ∈ Builtin.all, b.name = name ∧ symbol = .builtin b := by
  rw [predefined, Table.ofList, Table.get?_insertAll nodup_commands, Table.get?_empty,
    Option.or_none, Table.lookup_eq_some_iff nodup_commands, List.mem_map]
  simp only [Prod.mk.injEq, eq_comm (a := symbol)]

end Scope

/-! ## Trees -/

namespace ScopeTree

/-- A scope of a tree.  Scopes have numbers in the order in which they are made. -/
structure Node where
  /-- The numbers of the scopes around it, innermost first. -/
  around : List Nat := []
  scope : Scope
  /-- Whether the scope can still be used. -/
  isOpen : Bool := true

/-- What is asked of the scope with a number. -/
inductive Call where
  | child (scope : Nat)
  | allocate (scope : Nat)
  | define (scope : Nat) (name : String) (symbol : Symbol)

/-- A call with its answer. -/
inductive Event where
  | made (outer scope : Nat)
  | slot (scope n : Nat)
  | defined (scope : Nat) (name : String) (symbol : Symbol)
  | taken (scope : Nat) (name : String) (symbol existing : Symbol)

/-- The scope that an event is about. -/
def Event.scope : Event → Nat
  | .made _ i | .slot i _ | .defined i _ _ | .taken i _ _ _ => i

end ScopeTree

structure ScopeTree where
  nodes : List ScopeTree.Node

namespace ScopeTree

/-- The scope of the commands, alone. -/
def root : ScopeTree := ⟨[{ scope := .predefined }]⟩

def open? (t : ScopeTree) (i : Nat) : Option Node := t.nodes[i]?.filter (·.isOpen)

/-- Everyone shares the scope of the commands, so that it cannot be changed. -/
def changeable? (t : ScopeTree) (i : Nat) : Option Node := if i = 0 then none else t.open? i

/-- A new scope inside the one with number `i`. -/
def add (t : ScopeTree) (i : Nat) (n : Node) : ScopeTree :=
  ⟨t.nodes ++ [{ around := i :: n.around, scope := n.scope.child }]⟩

/-- The scope with number `i` becomes another one, and the scopes inside it are closed. -/
def change (t : ScopeTree) (i : Nat) (s : Scope) : ScopeTree :=
  ⟨t.nodes.mapIdx fun k n =>
    if k = i then { n with scope := s }
    else if i ∈ n.around then { n with isOpen := false } else n⟩

/-- Answers a call, unless its scope is closed or cannot be changed. -/
def call (t : ScopeTree) : Call → Option (ScopeTree × Event)
  | .child i => (t.open? i).map fun n => (t.add i n, .made i t.nodes.length)
  | .allocate i => (t.changeable? i).map fun n =>
      (t.change i n.scope.allocateSlot.2, .slot i n.scope.allocateSlot.1)
  | .define i name symbol => (t.changeable? i).map fun n =>
      match n.scope.define name symbol with
      | .ok next => (t.change i next, .defined i name symbol)
      | .error existing => (t.change i n.scope, .taken i name symbol existing)

/-- The tree after one more call, and what happened so far, latest first. -/
def extend (grown : ScopeTree × List Event) (c : Call) : ScopeTree × List Event :=
  match grown.1.call c with
  | some (t, e) => (t, e :: grown.2)
  | none => grown

/-- The tree that calls grow, and what happened, latest first. -/
def grow (calls : List Call) : ScopeTree × List Event := calls.foldl extend (root, [])

/-! ## What names stand for -/

/-- A scope defines a name: the outermost one defines the commands, the others what they were
told to. -/
def Defines (h : List Event) (i : Nat) (name : String) (symbol : Symbol) : Prop :=
  (i = 0 ∧ ∃ b ∈ Builtin.all, b.name = name ∧ symbol = .builtin b) ∨ .defined i name symbol ∈ h

/-- A name stands for what the nearest scope that defines it, from the inside out, defines it
as. -/
inductive StandsFor (h : List Event) (name : String) (symbol : Symbol) : Nat → Prop
  | here {i : Nat} (defines : Defines h i name symbol) : StandsFor h name symbol i
  | outward {i j : Nat} (free : ∀ x, ¬Defines h i name x) (inside : .made j i ∈ h)
      (onward : StandsFor h name symbol j) : StandsFor h name symbol i

/-- A name that a scope must not define again: the scope has it already, or it is that of a
command. -/
def Taken (h : List Event) (i : Nat) (name : String) : Prop :=
  (∃ x, Defines h i name x) ∨ ∃ b, StandsFor h name (.builtin b) i

/-- The cells that were taken in a scope, in order. -/
def slots (i : Nat) : List Event → List Nat
  | [] => []
  | .slot k n :: h => if k = i then slots i h ++ [n] else slots i h
  | _ :: h => slots i h

/-! ## Steps -/

/-- What can happen to a scope that is changed. -/
inductive Changes (i : Nat) (s : Scope) : Scope → Event → Prop
  | slot : Changes i s s.allocateSlot.2 (.slot i s.allocateSlot.1)
  | defined {name : String} {symbol : Symbol} {next : Scope}
      (done : s.define name symbol = .ok next) : Changes i s next (.defined i name symbol)
  | taken {name : String} {symbol existing : Symbol}
      (refused : s.define name symbol = .error existing) :
      Changes i s s (.taken i name symbol existing)

/-- What can happen to a tree. -/
inductive Step (t : ScopeTree) : ScopeTree → Event → Prop
  | made {i : Nat} {n : Node} (there : t.open? i = some n) :
      Step t (t.add i n) (.made i t.nodes.length)
  | changed {i : Nat} {n : Node} {next : Scope} {e : Event} (inside : i ≠ 0)
      (there : t.open? i = some n) (changes : Changes i n.scope next e) : Step t (t.change i next) e

section

variable {t u : ScopeTree} {h : List Event} {e : Event} {c : Call} {i j k : Nat} {m n : Node}
  {s next : Scope} {name : String} {symbol : Symbol}

theorem changeable?_eq_some_iff : t.changeable? i = some n ↔ i ≠ 0 ∧ t.open? i = some n := by
  rw [changeable?]
  split <;> simp [*]

theorem step_of_call (done : t.call c = some (u, e)) : Step t u e := by
  cases c with
  | child i =>
      obtain ⟨n, there, same⟩ := Option.map_eq_some_iff.1 done
      obtain ⟨rfl, rfl⟩ := Prod.mk.inj same
      exact .made there
  | allocate i =>
      obtain ⟨n, there, same⟩ := Option.map_eq_some_iff.1 done
      obtain ⟨rfl, rfl⟩ := Prod.mk.inj same
      obtain ⟨inside, there⟩ := changeable?_eq_some_iff.1 there
      exact .changed inside there .slot
  | define i name symbol =>
      obtain ⟨n, there, same⟩ := Option.map_eq_some_iff.1 done
      obtain ⟨inside, there⟩ := changeable?_eq_some_iff.1 there
      split at same <;> obtain ⟨rfl, rfl⟩ := Prod.mk.inj same
      · exact .changed inside there (.defined ‹_›)
      · exact .changed inside there (.taken ‹_›)

/-! ## What a step keeps -/

theorem open?_eq_some_iff : t.open? i = some n ↔ t.nodes[i]? = some n ∧ n.isOpen = true :=
  Option.filter_eq_some_iff

theorem lt_of_open? (there : t.open? i = some n) : i < t.nodes.length :=
  (List.getElem?_eq_some_iff.1 (open?_eq_some_iff.1 there).1).1

theorem open?_add (t : ScopeTree) (i : Nat) (n : Node) (k : Nat) :
    (t.add i n).open? k = if k = t.nodes.length then
      some { around := i :: n.around, scope := n.scope.child } else t.open? k := by
  rw [open?, open?, add]
  dsimp only
  rcases Nat.lt_trichotomy k t.nodes.length with below | rfl | above
  · rw [List.getElem?_append_left below, if_neg (Nat.ne_of_lt below)]
  · simp
  · rw [List.getElem?_eq_none (by simp; omega), List.getElem?_eq_none (Nat.le_of_lt above),
      if_neg (Nat.ne_of_gt above)]

theorem getElem?_change (t : ScopeTree) (i : Nat) (s : Scope) (k : Nat) :
    (t.change i s).nodes[k]? = t.nodes[k]?.map fun n =>
      if k = i then { n with scope := s }
      else if i ∈ n.around then { n with isOpen := false } else n :=
  List.getElem?_mapIdx

/-- A change leaves open the scope that changes and the scopes that are not inside it. -/
theorem open?_change : (t.change i s).open? k = some m ↔
    (k = i ∧ ∃ n, t.open? i = some n ∧ m = { n with scope := s }) ∨
      (k ≠ i ∧ t.open? k = some m ∧ i ∉ m.around) := by
  rw [open?_eq_some_iff, getElem?_change, Option.map_eq_some_iff]
  by_cases here : k = i
  · subst here
    simp only [if_true, true_and, ne_eq, not_true, false_and, or_false, open?_eq_some_iff]
    constructor
    · rintro ⟨⟨n, there, rfl⟩, isOpen⟩
      exact ⟨n, ⟨there, isOpen⟩, rfl⟩
    · rintro ⟨n, ⟨there, isOpen⟩, rfl⟩
      exact ⟨⟨n, there, rfl⟩, isOpen⟩
  · simp only [here, if_false, false_and, ne_eq, not_false_eq_true, true_and, false_or,
      open?_eq_some_iff]
    constructor
    · rintro ⟨⟨n, there, same⟩, isOpen⟩
      split at same
      · subst same
        cases isOpen
      · subst same
        exact ⟨⟨there, isOpen⟩, ‹_›⟩
    · rintro ⟨⟨there, isOpen⟩, beside⟩
      exact ⟨⟨m, there, if_neg beside⟩, isOpen⟩

theorem length_change (t : ScopeTree) (i : Nat) (s : Scope) :
    (t.change i s).nodes.length = t.nodes.length :=
  List.length_mapIdx

namespace Changes

variable (changes : Changes i s next e)

include changes

theorem scope_eq : e.scope = i := by
  cases changes <;> rfl

theorem outer_eq : next.outer = s.outer := by
  cases changes with
  | slot => rfl
  | defined done => rw [(Scope.define_eq_ok_iff.1 done).2.2]
  | taken => rfl

/-- A change adds the symbol that it defines, and no other. -/
theorem get?_iff : next.symbols.get? name = some symbol ↔
    s.symbols.get? name = some symbol ∨ e = .defined i name symbol := by
  cases changes with
  | slot => simp [Scope.allocateSlot]
  | taken => simp
  | @defined other x next done =>
      obtain ⟨free, _, rfl⟩ := Scope.define_eq_ok_iff.1 done
      simp only [Table.get?_insert, Event.defined.injEq, true_and]
      by_cases here : name = other
      · subst here
        simp [free]
      · simp [here, Ne.symm here]

theorem ne_made {outer k : Nat} : .made outer k ≠ e := by
  cases changes <;> simp

end Changes

theorem defines_cons : Defines (e :: h) k name symbol ↔
    Defines h k name symbol ∨ e = .defined k name symbol := by
  rw [Defines, Defines, List.mem_cons, or_assoc, or_comm (a := _ ∈ h), eq_comm (a := e)]

/-- Where a scope stands: the outermost one has nothing around it, every other one reads the
open scope around it, as that one is now. -/
inductive Placed (t : ScopeTree) (h : List Event) : Nat → Node → Prop
  | outermost {n : Node} (alone : ∀ j, .made j 0 ∉ h) (around : n.around = [])
      (outer : n.scope.outer = []) : Placed t h 0 n
  | inside {i j : Nat} {n m : Node} (there : t.open? j = some m)
      (made : ∀ k, .made k i ∈ h ↔ k = j) (around : n.around = j :: m.around)
      (below : ∀ k ∈ n.around, k < i) (outer : n.scope.outer = m.scope.symbols :: m.scope.outer) :
      Placed t h i n

/-- The tree is as the history tells. -/
structure Sound (t : ScopeTree) (h : List Event) : Prop where
  outermost : ∃ n, t.open? 0 = some n
  noted : ∀ e ∈ h, e.scope < t.nodes.length
  placed : ∀ i n, t.open? i = some n → Placed t h i n
  own : ∀ i n, t.open? i = some n → ∀ name symbol,
    n.scope.symbols.get? name = some symbol ↔ Defines h i name symbol
  /-- No scope ever defined the name of a command. -/
  commands : ∀ i name symbol, .defined i name symbol ∈ h → ∀ b ∈ Builtin.all, b.name ≠ name

theorem Placed.below (placed : Placed t h i n) : ∀ k ∈ n.around, k < i := by
  cases placed with
  | outermost _ around => rw [around]; exact fun k there => absurd there List.not_mem_nil
  | inside _ _ _ below => exact below

/-- A place stays the same as long as the scope around it is left alone. -/
theorem Placed.keep {later : List Event} (placed : Placed t h i m) (around : n.around = m.around)
    (outer : n.scope.outer = m.scope.outer)
    (opened : ∀ j p, t.open? j = some p → m.around = j :: p.around → u.open? j = some p)
    (same : ∀ j, .made j i ∈ later ↔ .made j i ∈ h) : Placed u later i n := by
  cases placed with
  | outermost alone nothing empty =>
      exact .outermost (fun j => mt (same j).1 (alone j)) (around.trans nothing)
        (outer.trans empty)
  | inside there made around' below outer' =>
      exact .inside (opened _ _ there around') (fun k => (same k).trans (made k))
        (around.trans around') (around ▸ below) (outer.trans outer')

namespace Sound

variable (sound : Sound t h)

include sound

/-- A look-up ends at a definition of the scope itself or goes on in the scope around it. -/
theorem lookup_cases (there : t.open? i = some n) (name : String) :
    (∃ x, Defines h i name x ∧ n.scope.lookup name = some x) ∨
    (∀ x, ¬Defines h i name x) ∧
      ((i = 0 ∧ (∀ j, .made j i ∉ h) ∧ n.scope.lookup name = none) ∨
        ∃ j m, j < i ∧ t.open? j = some m ∧ (∀ k, .made k i ∈ h ↔ k = j) ∧
          n.scope.lookup name = m.scope.lookup name) := by
  cases own : n.scope.symbols.get? name with
  | some x => exact .inl ⟨x, (sound.own i n there name x).1 own, lookup_of_symbols own⟩
  | none =>
      refine .inr ⟨fun x defines => ?_, ?_⟩
      · exact Option.some_ne_none x (((sound.own i n there name x).2 defines).symm.trans own)
      · cases sound.placed i n there with
        | outermost alone around outer =>
            exact .inl ⟨rfl, alone, by rw [Scope.lookup_eq, own, outer]; rfl⟩
        | @inside _ j _ m there' made around below outer =>
            exact .inr ⟨j, m, below j (around ▸ List.mem_cons_self ..), there', made,
              Scope.lookup_inside outer own⟩

/-- **A look-up finds what a name stands for.** -/
theorem lookup_iff (there : t.open? i = some n) :
    n.scope.lookup name = some symbol ↔ StandsFor h name symbol i := by
  -- the number of a scope is above those of the scopes around it
  induction i using Nat.strongRecOn generalizing n with
  | ind i ih =>
  constructor
  · intro found
    obtain ⟨x, defines, found'⟩ | ⟨free, ⟨_, _, none'⟩ | ⟨j, m, less, there', made, same⟩⟩ :=
      sound.lookup_cases there name
    · exact .here (Option.some.inj (found'.symm.trans found) ▸ defines)
    · exact absurd (found.symm.trans none') (Option.some_ne_none symbol)
    · exact .outward free ((made j).2 rfl) ((ih j less there').1 (same ▸ found))
  · rintro (⟨here⟩ | ⟨free, inside, onward⟩)
    · exact lookup_of_symbols ((sound.own i n there name symbol).2 here)
    · obtain ⟨x, defines, _⟩ | ⟨_, ⟨_, alone, _⟩ | ⟨j, m, less, there', made, same⟩⟩ :=
        sound.lookup_cases there name
      · exact absurd defines (free x)
      · exact absurd inside (alone _)
      · obtain rfl := (made _).1 inside
        exact same.trans ((ih _ less there').2 onward)

/-- **No scope hides a command.** -/
theorem lookup_builtin {b : Builtin} (known : b ∈ Builtin.all) (there : t.open? i = some n) :
    n.scope.lookup b.name = some (.builtin b) := by
  induction i using Nat.strongRecOn generalizing n with
  | ind i ih =>
  by_cases outermost : i = 0
  · exact lookup_of_symbols
      ((sound.own i n there _ _).2 (.inl ⟨outermost, b, known, rfl, rfl⟩))
  · have free : ∀ x, ¬Defines h i b.name x := by
      rintro x (⟨top, _⟩ | defined)
      · exact outermost top
      · exact sound.commands i b.name x defined b known rfl
    obtain ⟨x, defines, _⟩ | ⟨_, ⟨top, _⟩ | ⟨j, m, less, there', _, same⟩⟩ :=
      sound.lookup_cases there b.name
    · exact absurd defines (free x)
    · exact absurd top outermost
    · exact same.trans (ih j less there')

theorem made (there : t.open? i = some n) :
    Sound (t.add i n) (.made i t.nodes.length :: h) where
  outermost := by
    obtain ⟨top, there'⟩ := sound.outermost
    exact ⟨top, by rw [open?_add, if_neg (Nat.ne_of_lt (lt_of_open? there')), there']⟩
  noted := by
    rw [List.forall_mem_cons]
    simp only [add, List.length_append, List.length_singleton]
    exact ⟨Nat.lt_succ_self _, fun e before => Nat.lt_succ_of_lt (sound.noted e before)⟩
  placed k m open' := by
    have old : ∀ j p, t.open? j = some p → (t.add i n).open? j = some p := fun j p there => by
      rw [open?_add, if_neg (Nat.ne_of_lt (lt_of_open? there)), there]
    rw [open?_add] at open'
    split at open'
    · rename_i new
      obtain rfl := Option.some.inj open'
      subst new
      refine .inside (old i n there) (fun j => ?_) rfl ?_ rfl
      · have unknown : .made j t.nodes.length ∉ h := fun before =>
          Nat.lt_irrefl _ (sound.noted _ before)
        simp [unknown]
      · have here := lt_of_open? there
        rw [List.forall_mem_cons]
        exact ⟨here, fun j around =>
          Nat.lt_trans ((sound.placed i n there).below j around) here⟩
    · rename_i other
      refine (sound.placed k m open').keep rfl rfl (fun j p there _ => old j p there) fun j => ?_
      simp [other]
  own k m open' name symbol := by
    rw [open?_add] at open'
    split at open'
    · rename_i new
      obtain rfl := Option.some.inj open'
      subst new
      have unknown : .defined t.nodes.length name symbol ∉ h := fun before =>
        Nat.lt_irrefl _ (sound.noted _ before)
      have inside : t.nodes.length ≠ 0 := Nat.ne_of_gt (Nat.zero_lt_of_lt (lt_of_open? there))
      simp [Scope.child, Defines, unknown, inside]
    · rw [sound.own k m open' name symbol, defines_cons]
      simp
  commands k name symbol defined := by
    rw [List.mem_cons, or_iff_right Event.noConfusion] at defined
    exact sound.commands k name symbol defined

theorem changed (inside : i ≠ 0) (there : t.open? i = some n) (changes : Changes i n.scope next e) :
    Sound (t.change i next) (e :: h) where
  outermost := by
    obtain ⟨top, there'⟩ := sound.outermost
    refine ⟨top, open?_change.2 (.inr ⟨Ne.symm inside, there', fun around => ?_⟩)⟩
    exact absurd ((sound.placed 0 top there').below i around) (Nat.not_lt_zero i)
  noted := by
    rw [List.forall_mem_cons, length_change, changes.scope_eq]
    exact ⟨lt_of_open? there, sound.noted⟩
  placed k m open' := by
    have same : ∀ j, .made j k ∈ e :: h ↔ .made j k ∈ h := fun j => by
      rw [List.mem_cons, or_iff_right changes.ne_made]
    rcases open?_change.1 open' with ⟨rfl, n', there', rfl⟩ | ⟨other, there', beside⟩
    · obtain rfl := Option.some.inj (there.symm.trans there')
      have placed := sound.placed k n there
      refine placed.keep rfl changes.outer_eq (fun j p around eq => ?_) same
      -- the numbers around the scope are below its own
      have below := placed.below
      rw [eq, List.forall_mem_cons] at below
      exact open?_change.2 (.inr ⟨Nat.ne_of_lt below.1, around, fun again =>
        Nat.lt_irrefl k (below.2 k again)⟩)
    · refine (sound.placed k m there').keep rfl rfl (fun j p around eq => ?_) same
      rw [eq, List.mem_cons, not_or] at beside
      exact open?_change.2 (.inr ⟨Ne.symm beside.1, around, beside.2⟩)
  own k m open' name symbol := by
    rw [defines_cons]
    rcases open?_change.1 open' with ⟨rfl, n', there', rfl⟩ | ⟨other, there', _⟩
    · obtain rfl := Option.some.inj (there.symm.trans there')
      rw [changes.get?_iff, sound.own k n there]
    · rw [sound.own k m there', or_iff_left]
      rintro rfl
      exact other changes.scope_eq
  commands k name symbol defined b known same := by
    rcases List.mem_cons.1 defined with rfl | before
    · cases changes with
      | defined done =>
          -- the look-up for the check found the command, so the name was not accepted
          obtain ⟨_, free, _⟩ := Scope.define_eq_ok_iff.1 done
          exact free b (same ▸ sound.lookup_builtin known there)
    · exact sound.commands k name symbol before b known same

theorem step (step : Step t u e) : Sound u (e :: h) := by
  cases step with
  | made there => exact sound.made there
  | changed inside there changes => exact sound.changed inside there changes

end Sound

theorem sound_root : Sound root [] where
  outermost := ⟨_, rfl⟩
  noted e there := absurd there List.not_mem_nil
  placed i n there := by
    cases i with
    | zero =>
        obtain rfl := Option.some.inj there
        exact .outermost (fun j => List.not_mem_nil) rfl rfl
    | succ i => cases there
  own i n there name symbol := by
    cases i with
    | zero =>
        obtain rfl := Option.some.inj there
        rw [Scope.get?_predefined, Defines]
        simp
    | succ i => cases there
  commands i name symbol there := absurd there List.not_mem_nil

/-! ## Cells -/

theorem slots_cons_of_ne (other : e.scope ≠ i) : slots i (e :: h) = slots i h := by
  cases e with
  | slot k n => exact if_neg other
  | _ => rfl

theorem slots_of_new (new : ∀ e ∈ h, e.scope ≠ i) : slots i h = [] := by
  induction h with
  | nil => rfl
  | cons e before ih =>
      obtain ⟨other, new⟩ := List.forall_mem_cons.1 new
      rw [slots_cons_of_ne other, ih new]

/-- The cells of a scope follow each other from `first` on, and the next one goes on. -/
def Consecutive (t : ScopeTree) (h : List Event) (i first : Nat) : Prop :=
  ∃ n count, t.nodes[i]? = some n ∧ slots i h = List.range' first count ∧
    n.scope.nextSlot = first + count

theorem Consecutive.changed {first : Nat} (consecutive : Consecutive t h i first)
    (there : t.open? k = some m) (changes : Changes k m.scope next e) :
    Consecutive (t.change k next) (e :: h) i first := by
  obtain ⟨n, count, found, taken, reached⟩ := consecutive
  by_cases here : i = k
  · subst here
    obtain rfl := Option.some.inj (found.symm.trans (open?_eq_some_iff.1 there).1)
    have found' : (t.change i next).nodes[i]? = some { n with scope := next } := by
      rw [getElem?_change, found, Option.map_some, if_pos rfl]
    cases changes with
    | slot =>
        refine ⟨_, count + 1, found', ?_, congrArg (· + 1) reached⟩
        rw [slots, if_pos rfl, taken, List.range'_1_concat, Scope.allocateSlot, reached]
    | defined done =>
        obtain ⟨_, _, rfl⟩ := Scope.define_eq_ok_iff.1 done
        exact ⟨_, count, found', taken, reached⟩
    | taken => exact ⟨_, count, found', taken, reached⟩
  · have other : e.scope ≠ i := changes.scope_eq ▸ Ne.symm here
    refine ⟨_, count, (getElem?_change ..).trans (congrArg _ found),
      (slots_cons_of_ne other).trans taken, ?_⟩
    simp only [if_neg here]
    split <;> exact reached

theorem Consecutive.step {first : Nat} (step : Step t u e)
    (consecutive : Consecutive t h i first) : Consecutive u (e :: h) i first := by
  cases step with
  | made =>
      obtain ⟨n, count, found, taken, reached⟩ := consecutive
      have below : i < t.nodes.length := (List.getElem?_eq_some_iff.1 found).1
      exact ⟨n, count, (List.getElem?_append_left below).trans found, taken, reached⟩
  | changed _ there changes => exact consecutive.changed there changes

/-- The cells of a new scope go on from where the scope around it is. -/
theorem Sound.consecutive (sound : Sound t h) (i : Nat) (n : Node) :
    Consecutive (t.add i n) (.made i t.nodes.length :: h) t.nodes.length n.scope.nextSlot := by
  have new : slots t.nodes.length h = [] := slots_of_new fun e before =>
    Nat.ne_of_lt (sound.noted e before)
  exact ⟨_, 0, List.getElem?_concat_length .., new, rfl⟩

/-! ## Runs -/

/-- What every step keeps is kept by all calls. -/
theorem run_induct {P : ScopeTree → List Event → Prop}
    (step : ∀ {t h u e}, Step t u e → P t h → P u (e :: h)) (calls : List Call) (start : P t h) :
    P (calls.foldl extend (t, h)).1 (calls.foldl extend (t, h)).2 := by
  induction calls generalizing t h with
  | nil => exact start
  | cons c rest ih =>
      rw [List.foldl_cons, extend]
      split
      · exact ih (step (step_of_call ‹_›) start)
      · exact ih start

theorem sound_grow (calls : List Call) : Sound (grow calls).1 (grow calls).2 :=
  run_induct (fun step sound => sound.step step) calls sound_root

theorem Sound.taken_iff (sound : Sound t h) (there : t.open? i = some n) :
    Taken h i name ↔ (∃ x, n.scope.symbols.get? name = some x) ∨
      ∃ b, n.scope.lookup name = some (.builtin b) :=
  or_congr (exists_congr fun x => (sound.own i n there name x).symm)
    (exists_congr fun _ => (sound.lookup_iff there).symm)

/-- A definition is refused exactly if the name is taken, and is told what the name stands for. -/
theorem Sound.call_define (sound : Sound t h) (changeable : t.changeable? i = some n)
    (name : String) (symbol : Symbol) :
    (Taken h i name → ∃ u existing,
      t.call (.define i name symbol) = some (u, .taken i name symbol existing) ∧
      StandsFor h name existing i ∧ u.open? i = some n) ∧
    (¬Taken h i name → ∃ u,
      t.call (.define i name symbol) = some (u, .defined i name symbol)) := by
  obtain ⟨_, there⟩ := changeable?_eq_some_iff.1 changeable
  rw [call, changeable, Option.map_some, sound.taken_iff there]
  cases answer : n.scope.define name symbol with
  | ok next =>
      obtain ⟨free, noCommand, _⟩ := Scope.define_eq_ok_iff.1 answer
      refine ⟨?_, fun _ => ⟨_, rfl⟩⟩
      rintro (⟨x, own⟩ | ⟨b, command⟩)
      · exact absurd (free.symm.trans own) (Option.some_ne_none x).symm
      · exact absurd command (noCommand b)
  | error existing =>
      obtain ⟨found, why⟩ := Scope.define_eq_error_iff.1 answer
      refine ⟨fun _ => ⟨_, existing, rfl, (sound.lookup_iff there).1 found,
        open?_change.2 (.inl ⟨rfl, n, there, rfl⟩)⟩, fun open' => absurd ?_ open'⟩
      exact why.imp (fun own => ⟨existing, own⟩) fun ⟨b, same⟩ => ⟨b, same ▸ found⟩

theorem StandsFor.known {b : Builtin} (stands : StandsFor h name (.builtin b) i)
    (none' : ∀ j b, .defined j name (.builtin b) ∉ h) : ∃ b ∈ Builtin.all, b.name = name := by
  induction stands with
  | here defines =>
      obtain ⟨_, b, known, same, _⟩ | defined := defines
      · exact ⟨b, known, same⟩
      · exact absurd defined (none' _ _)
  | outward _ _ _ ih => exact ih

/-- **Scopes never hide a command, and a name stands for its innermost definition.**  Whatever
calls grow a tree of scopes: in every scope that is open a look-up finds each command under its
name, and finds for every name exactly what the history says that it stands for.  A definition
is refused if and only if the scope has the name already or the name is that of a command; the
answer is what the name stands for, and the scope stays as it is.  A name that no call gave to a
command is that of a command only if a command has it from the start.  The cells of a new scope
follow each other from the next cell of the scope around it when the new one was made, whatever
calls come later. -/
theorem scopes_of_calls (calls : List Call) :
    let t := (grow calls).1
    let h := (grow calls).2
    (∀ i n, t.open? i = some n →
      (∀ b ∈ Builtin.all, n.scope.lookup b.name = some (.builtin b)) ∧
      ∀ name symbol, n.scope.lookup name = some symbol ↔ StandsFor h name symbol i) ∧
    (∀ i n name symbol, t.changeable? i = some n →
      (Taken h i name → ∃ u existing,
        t.call (.define i name symbol) = some (u, .taken i name symbol existing) ∧
        StandsFor h name existing i ∧ u.open? i = some n) ∧
      (¬Taken h i name → ∃ u,
        t.call (.define i name symbol) = some (u, .defined i name symbol))) ∧
    (∀ i n name, t.open? i = some n → (∀ j b, .defined j name (.builtin b) ∉ h) →
      (Taken h i name ↔ (∃ x, Defines h i name x) ∨ ∃ b ∈ Builtin.all, b.name = name)) ∧
    ∀ i n later, t.open? i = some n → ∃ u count,
      t.call (.child i) = some (u, .made i t.nodes.length) ∧
      slots t.nodes.length (grow (calls ++ .child i :: later)).2 =
        List.range' n.scope.nextSlot count := by
  intro t h
  have sound : Sound t h := sound_grow calls
  refine ⟨fun i n there => ⟨fun b known => sound.lookup_builtin known there,
    fun name symbol => sound.lookup_iff there⟩,
    fun i n name symbol changeable => sound.call_define changeable name symbol,
    fun i n name there none' => ?_, fun i n later there => ?_⟩
  · refine or_congr_right ⟨fun ⟨b, stands⟩ => stands.known none', ?_⟩
    rintro ⟨b, known, rfl⟩
    exact ⟨b, (sound.lookup_iff there).1 (sound.lookup_builtin known there)⟩
  · have called : t.call (.child i) = some (t.add i n, .made i t.nodes.length) := by
      rw [call, there, Option.map_some]
    have extended : grow (calls ++ .child i :: later) =
        later.foldl extend (t.add i n, .made i t.nodes.length :: h) := by
      rw [grow, List.foldl_append, List.foldl_cons, ← grow, extend, called]
    obtain ⟨_, count, _, taken, _⟩ : Consecutive _ _ t.nodes.length n.scope.nextSlot :=
      run_induct (P := fun u h => Consecutive u h _ _) Consecutive.step later
        (sound.consecutive i n)
    exact ⟨_, count, called, extended ▸ taken⟩

end

/-- A program with a variable, and a procedure in it with a parameter of the same name. -/
def procedureCalls : List Call :=
  [.child 0, .allocate 1, .define 1 "x" (.cell .var 0 "x"), .child 1, .allocate 2,
    .define 2 "x" (.cell .var 1 "f__x")]

def procedureHistory : List Event :=
  [.defined 2 "x" (.cell .var 1 "f__x"), .slot 2 1, .made 1 2,
    .defined 1 "x" (.cell .var 0 "x"), .slot 1 0, .made 0 1]

theorem scopes_of_calls_procedure :
    let t := (grow procedureCalls).1
    let h := procedureHistory
    (grow procedureCalls).2 = h ∧
    StandsFor h "x" (.cell .var 0 "x") 1 ∧ StandsFor h "x" (.cell .var 1 "f__x") 2 ∧
    (∃ u existing, t.call (.define 2 "update" (.procedure [])) =
        some (u, .taken 2 "update" (.procedure []) existing) ∧
      StandsFor h "update" existing 2) ∧
    (∃ u, t.call (.define 2 "y" (.procedure [])) = some (u, .defined 2 "y" (.procedure []))) ∧
    ∃ count, slots 3 (grow (procedureCalls ++ [.child 2, .allocate 3, .allocate 3])).2 =
      List.range' 2 count := by
  intro t h
  have history : (grow procedureCalls).2 = h := rfl
  obtain ⟨finds, answers, only, follows⟩ := scopes_of_calls procedureCalls
  rw [history] at finds answers only
  have noCommand : ∀ name j b, .defined j name (.builtin b) ∉ h := by
    simp [h, procedureHistory]
  refine ⟨history, ((finds 1 _ rfl).2 _ _).1 rfl, ((finds 2 _ rfl).2 _ _).1 rfl, ?_, ?_, ?_⟩
  · have taken : Taken h 2 "update" :=
      (only 2 _ "update" rfl (noCommand _)).2 (.inr ⟨_, List.mem_cons_self .., rfl⟩)
    obtain ⟨u, existing, refused, stands, _⟩ :=
      (answers 2 _ "update" (.procedure []) rfl).1 taken
    exact ⟨u, existing, refused, stands⟩
  · have free : ¬Taken h 2 "y" := by
      rw [only 2 _ "y" rfl (noCommand _)]
      have unknown : ∀ b ∈ Builtin.all, b.name ≠ "y" := by decide
      rintro (⟨x, defines⟩ | ⟨b, known, same⟩)
      · simp [Defines, h, procedureHistory] at defines
      · exact unknown b known same
    exact (answers 2 _ "y" (.procedure []) rfl).2 free
  · obtain ⟨_, count, _, cells⟩ := follows 2 _ [.allocate 3, .allocate 3] rfl
    exact ⟨count, cells⟩

/-- A call can give a command another name, which the scopes inside must not define again. -/
example :
    let update := Builtin.unary "update" "duration" .update
    let h := (grow [.child 0, .define 1 "go" (.builtin update), .child 1,
      .define 2 "go" (.procedure [])]).2
    h.head? = some (.taken 2 "go" (.procedure []) (.builtin update)) :=
  rfl

end ScopeTree

end PulseSequencer.Ppp
