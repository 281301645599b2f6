import PulseSequencer.Formula.Value
import PulseSequencer.Ppp.Builtin
import PulseSequencer.Ppp.Syntax
import PulseSequencer.Table

/-
# PulseSequencer.Ppp.Scope -- what the names of a source stand for

Scopes are nested.  A name is looked up from the innermost scope outwards; the
outermost scope holds the built-in commands, whose names nothing may take.
-/

namespace PulseSequencer.Ppp

set_option autoImplicit false

inductive Symbol where
  /-- A cell of data memory, under the name that it has in the assembly text. -/
  | cell (kind : DeclarationKind) (slot : Nat) (name : String)
  /-- A value that is put in wherever the name is used. -/
  | constant (value : Value) (slot : Nat)
  /-- The cells that take the arguments of a procedure. -/
  | procedure (cells : List String)
  | builtin (b : Builtin)
deriving Inhabited

abbrev Symbols := Table String Symbol

/-- A scope within the scopes `outer`, innermost first. -/
structure Scope where
  symbols : Symbols := Table.empty
  /-- The next free cell of data memory. -/
  nextSlot : Nat := 0
  outer : List Symbols := []

namespace Scope

/-- The scope of the built-in commands. -/
def predefined : Scope :=
  { symbols := Table.ofList (Builtin.all.map fun b => (b.name, .builtin b)) }

/-- A new scope inside this one. -/
def child (s : Scope) : Scope := { nextSlot := s.nextSlot, outer := s.symbols :: s.outer }

/-- The scope in which a program is compiled. -/
def program : Scope := predefined.child

def lookupOuter (outer : List Symbols) (name : String) : Option Symbol :=
  outer.findSome? (·.get? name)

/-- The innermost symbol of a name. -/
def lookup (s : Scope) (name : String) : Option Symbol :=
  lookupOuter (s.symbols :: s.outer) name

/-- Adds a symbol.  The name must be free in this scope and must not be that of a
command; if it is taken, the symbol that has it is the error. -/
def define (s : Scope) (name : String) (symbol : Symbol) : Except Symbol Scope :=
  match s.symbols.get? name, lookupOuter s.outer name with
  | some existing, _ => .error existing
  | none, some (.builtin b) => .error (.builtin b)
  | none, _ => .ok { s with symbols := s.symbols.insert name symbol }

/-- The next free cell, and the scope in which it is taken. -/
def allocateSlot (s : Scope) : Nat × Scope := (s.nextSlot, { s with nextSlot := s.nextSlot + 1 })

end Scope

end PulseSequencer.Ppp
