import PulseSequencer.Units.PhysicalUnit

/-
# PulseSequencer.Formula.Basic -- the tree of a formula
-/

namespace PulseSequencer

set_option autoImplicit false

inductive BinaryOp where
  | add | sub | mul | div | rem | pow
  | eq | ne | lt | le | gt | ge
  | and | or
deriving Repr, DecidableEq

inductive UnaryOp where
  | neg | plus | not
deriving Repr, DecidableEq

/-- A formula; every node carries the byte of the text that it stands for. -/
inductive Formula where
  | int (offset : Nat) (n : Int)
  | float (offset : Nat) (x : Float)
  | quantity (offset : Nat) (magnitude : Float) (unit : PhysicalUnit)
  | text (offset : Nat) (s : String)
  | name (offset : Nat) (s : String)
  | list (offset : Nat) (items : List Formula)
  | dict (offset : Nat) (items : List (Formula × Formula))
  | unary (offset : Nat) (op : UnaryOp) (operand : Formula)
  | binary (offset : Nat) (op : BinaryOp) (left right : Formula)
  | call (offset : Nat) (function : String) (args : List Formula)
  | index (offset : Nat) (target key : Formula)
deriving Inhabited

def BinaryOp.name : BinaryOp → String
  | .add => "Add"
  | .sub => "Sub"
  | .mul => "Mul"
  | .div => "Div"
  | .rem => "Rem"
  | .pow => "Pow"
  | .eq => "Eq"
  | .ne => "Ne"
  | .lt => "Lt"
  | .le => "Le"
  | .gt => "Gt"
  | .ge => "Ge"
  | .and => "And"
  | .or => "Or"

def UnaryOp.name : UnaryOp → String
  | .neg => "Neg"
  | .plus => "Plus"
  | .not => "Not"

def Formula.offset : Formula → Nat
  | .int o _ | .float o _ | .quantity o _ _ | .text o _ | .name o _ | .list o _ | .dict o _
  | .unary o _ _ | .binary o _ _ _ | .call o _ _ | .index o _ _ => o

end PulseSequencer
