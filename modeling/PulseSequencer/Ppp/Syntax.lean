import PulseSequencer.Formula.Basic
import PulseSequencer.Ppp.Token

/-
# PulseSequencer.Ppp.Syntax -- the tree of a ppp source
-/

namespace PulseSequencer.Ppp

set_option autoImplicit false

/-- A formula with its text and the byte of the source at which the text starts. -/
structure SourceFormula where
  formula : Formula
  text : String
  start : Nat
deriving Inhabited

inductive DeclarationKind where
  | var
  | const
  | parameter
  | shutter
  | maskedShutter
  | trigger
  | counter
  | exitcode
  | address
deriving Repr, DecidableEq, Inhabited

namespace DeclarationKind

def ofKeyword? : String → Option DeclarationKind
  | "var" => some .var
  | "const" => some .const
  | "parameter" => some .parameter
  | "shutter" => some .shutter
  | "masked_shutter" => some .maskedShutter
  | "trigger" => some .trigger
  | "counter" => some .counter
  | "exitcode" => some .exitcode
  | "address" => some .address
  | _ => none

def keyword : DeclarationKind → String
  | .var => "var"
  | .const => "const"
  | .parameter => "parameter"
  | .shutter => "shutter"
  | .maskedShutter => "masked_shutter"
  | .trigger => "trigger"
  | .counter => "counter"
  | .exitcode => "exitcode"
  | .address => "address"

/-- The type of the variable in the assembly text; a plain one has none. -/
def typeName? : DeclarationKind → Option String
  | .var => none
  | kind => some kind.keyword

def needsValue : DeclarationKind → Bool
  | .const | .exitcode => true
  | _ => false

end DeclarationKind

structure Declaration where
  kind : DeclarationKind
  name : String
  value : Option SourceFormula
  /-- Names behind the value: a type, a unit or an encoding. -/
  attributes : List (String × Position)
  /-- The encoding of `parameter<ENCODING>`. -/
  encoding : Option String
  position : Position
deriving Inhabited

/-- The operators of assignments such as `+=`. -/
inductive AssignOp where
  | add | sub | mul | div | and | or | shl | shr
deriving Repr, DecidableEq, Inhabited

namespace AssignOp

def ofMark? : Mark → Option AssignOp
  | .addAssign => some .add
  | .subAssign => some .sub
  | .mulAssign => some .mul
  | .divAssign => some .div
  | .andAssign => some .and
  | .orAssign => some .or
  | .shlAssign => some .shl
  | .shrAssign => some .shr
  | _ => none

def opcode : AssignOp → Opcode
  | .add => .addw
  | .sub => .subw
  | .mul => .multw
  | .div => .divw
  | .and => .andw
  | .or => .orw
  | .shl => .shl
  | .shr => .shr

end AssignOp

structure Argument where
  keyword : Option String
  value : SourceFormula
deriving Inhabited

inductive Statement where
  | assign (position : Position) (target : String) (op : Option AssignOp) (value : SourceFormula)
  | cond (position : Position) (branches : List (SourceFormula × List Statement))
      (otherwise : List Statement)
  | loop (position : Position) (condition : SourceFormula) (body : List Statement)
  | call (position : Position) (name : String) (arguments : List Argument)
  | return (position : Position) (value : Option SourceFormula)
  | pass (position : Position)
  /-- Assembly text that is passed on as it is. -/
  | assembly (position : Position) (text : String)
deriving Inhabited

def Statement.position : Statement → Position
  | .assign p _ _ _ | .cond p _ _ | .loop p _ _ | .call p _ _ | .return p _ | .pass p
  | .assembly p _ => p

structure Procedure where
  name : String
  parameters : List String
  body : List Statement
  position : Position
deriving Inhabited

inductive Item where
  | declaration (d : Declaration)
  | procedure (p : Procedure)
  | statement (s : Statement)
deriving Inhabited

end PulseSequencer.Ppp
