import PulseSequencer.Program.ParameterTable
import PulseSequencer.Program.Update

/-
# PulseSequencer.Program.Context -- named sets of values with inheritance

A context may have a parent.  Its own values override those of its ancestors, and
it may mark a variable as taking the value of its parent.  Resolving a context
goes through the chain from the oldest ancestor down.
-/

namespace PulseSequencer

set_option autoImplicit false

/-- What a context says about one variable. -/
structure ContextEntry where
  value : Quantity
  /-- Evaluated over the globals when the context is resolved. -/
  formula : Option String := none
  fromParent : Bool := false
  enabled : Bool := true

structure Context where
  name : String
  vars : Table String ContextEntry := Table.empty
  shutters : Table String UInt64 := Table.empty
  triggers : Table String UInt64 := Table.empty
  counters : Table String UInt64 := Table.empty
  sourceFile : Option String := none
  ramFile : Option String := none
  parent : Option String := none

/-- A context with its whole ancestry applied. -/
structure ResolvedContext where
  values : Table String Quantity := Table.empty
  disabled : List String := []
  shutters : Table String UInt64 := Table.empty
  triggers : Table String UInt64 := Table.empty
  counters : Table String UInt64 := Table.empty
  sourceFile : Option String := none
  ramFile : Option String := none

inductive ContextError where
  | unknown (name : String)
  | cycle (child parent : String)
  | missingParentValue (context variableName : String)
  | formula (context variableName : String) (error : FormulaError)
deriving Repr

def ContextError.message : ContextError → String
  | .unknown name => "Unknown context '" ++ name ++ "'"
  | .cycle child parent =>
      "Making '" ++ parent ++ "' the parent of '" ++ child ++ "' would create a cycle"
  | .missingParentValue context variableName =>
      "Variable '" ++ variableName ++ "' of context '" ++ context ++
        "' uses the parent value, but no ancestor defines it"
  | .formula context variableName error =>
      "Expression of '" ++ variableName ++ "' in context '" ++ context ++ "': " ++ error.message

namespace ResolvedContext

/-- A slot that changes again keeps its last word only. -/
def addChange (changes : List Change) (change : Change) : List Change :=
  changes.filter (fun c => c.1 ≠ change.1) ++ [change]

/-- One part of applying a context after another. -/
def thenUpdate (u : Updated) (part : Program → Updated) : Updated :=
  let next := part u.program
  { program := next.program
    changes := next.changes.foldl addChange u.changes
    notices := u.notices ++ next.notices }

/-- Writes the values and masks into a program, and switches the variables on or
off. -/
def apply (c : ResolvedContext) (p : Program) : Updated :=
  let u := p.updateVariables c.values
  let u := [c.shutters, c.triggers, c.counters].foldl
    (fun u masks => thenUpdate u fun p => p.updateMasks masks) u
  c.values.keys.foldl
    (fun u name => thenUpdate u fun p => p.setEnabled name (name ∉ c.disabled)) u

end ResolvedContext

structure ContextStore where
  contexts : Table String Context := Table.empty

namespace ContextStore

def empty : ContextStore := {}

def get? (s : ContextStore) (name : String) : Option Context := s.contexts.get? name

def insert (s : ContextStore) (c : Context) : ContextStore := ⟨s.contexts.insert c.name c⟩

/-- A context and its ancestors, nearest first.  The number bounds the length. -/
def chainFrom (s : ContextStore) : Nat → String → List Context
  | 0, _ => []
  | bound + 1, name =>
      match s.get? name with
      | none => []
      | some c => c :: (match c.parent with
        | some parent => s.chainFrom bound parent
        | none => [])

/-- A chain without a cycle holds every context at most once. -/
def chain (s : ContextStore) (name : String) : List Context :=
  s.chainFrom s.contexts.size name

/-- Gives a context another parent, or none. -/
def setParent (s : ContextStore) (child : String) (parent : Option String) :
    Except ContextError ContextStore := do
  match s.get? child with
  | none => throw (.unknown child)
  | some c =>
      match parent with
      | none => pure ()
      | some parent =>
          if !s.contexts.contains parent then throw (.unknown parent)
          if (s.chain parent).any fun ancestor => ancestor.name == child then
            throw (.cycle child parent)
      return ⟨s.contexts.insert child { c with parent }⟩

/-- The value that an entry gives to its variable. -/
def entryValue (context name : String) (globals : Table String Quantity) (e : ContextEntry) :
    Except ContextError Quantity :=
  match e.formula with
  | some text => (Formula.evaluateQuantity text globals).mapError (.formula context name)
  | none => .ok e.value

/-- Lays one entry over what its ancestors say. -/
def addEntry (context : String) (globals : Table String Quantity) (r : ResolvedContext)
    (entry : String × ContextEntry) : Except ContextError ResolvedContext := do
  let (name, e) := entry
  if e.fromParent then
    if r.values.contains name then return r
    else throw (.missingParentValue context name)
  else
    let value ← entryValue context name globals e
    let disabled := r.disabled.filter (· ≠ name)
    return { r with
      values := r.values.insert name value
      disabled := if e.enabled then disabled else disabled ++ [name] }

/-- Lays one context over its ancestors. -/
def addContext (globals : Table String Quantity) (r : ResolvedContext) (c : Context) :
    Except ContextError ResolvedContext := do
  let r ← c.vars.entries.foldlM (addEntry c.name globals) r
  return { r with
    shutters := r.shutters.insertAll c.shutters.entries
    triggers := r.triggers.insertAll c.triggers.entries
    counters := r.counters.insertAll c.counters.entries
    sourceFile := r.sourceFile.or c.sourceFile }

/-- The values of a context with its ancestry; formulas are evaluated over the
globals. -/
def resolve (s : ContextStore) (name : String) (globals : Table String Quantity) :
    Except ContextError ResolvedContext :=
  match s.get? name with
  | none => .error (.unknown name)
  | some c =>
      (s.chain name).reverse.foldlM (addContext globals)
        { sourceFile := c.sourceFile, ramFile := c.ramFile }

end ContextStore

end PulseSequencer
