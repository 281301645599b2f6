import PulseSequencer.Machine.Instruction

/-
# PulseSequencer.Ppp.Builtin -- the commands of the sequencer

A command takes named arguments and expands to a fixed list of instructions, whose
operands are arguments or numbers.
-/

namespace PulseSequencer.Ppp

set_option autoImplicit false

/-- How an argument reaches the instructions. -/
inductive ParamKind where
  /-- Any value, held by a cell of data memory. -/
  | slot
  /-- A channel number that is known to the compiler. -/
  | channel
  /-- Loaded into W before the instructions run. -/
  | accumulator
  /-- A variable that the command writes to. -/
  | target
deriving Repr, DecidableEq

structure Param where
  name : String
  kind : ParamKind
  /-- Whether the argument may be left out. -/
  omissible : Bool := false
deriving Repr, DecidableEq

inductive TemplateOperand where
  | argument (param : String)
  | number (n : Nat)
deriving Repr, DecidableEq

/-- An instruction of a command.  It is left out if one of its arguments is. -/
structure TemplateLine where
  opcode : Opcode
  operands : List TemplateOperand := []
deriving Repr, DecidableEq

/-- Where a command may stand. -/
inductive BuiltinUse where
  /-- As a statement. -/
  | command
  /-- As a statement, or in a formula for the value that it leaves in W. -/
  | value
  /-- As a condition. -/
  | condition
deriving Repr, DecidableEq

structure Builtin where
  name : String
  params : List Param
  template : List TemplateLine
  use : BuiltinUse := .command
deriving Repr, DecidableEq

namespace Builtin

def slot (name : String) : Param := ⟨name, .slot, false⟩

def channel : Param := ⟨"channel", .channel, false⟩

/-- A command of one slot and one instruction. -/
def unary (name param : String) (opcode : Opcode) : Builtin :=
  { name, params := [slot param], template := [⟨opcode, [.argument param]⟩] }

def all : List Builtin :=
  [unary "update" "duration" .update,
   unary "trigger" "mask" .trigger,
   unary "set_shutter" "mask" .shuttermask,
   unary "set_inv_shutter" "mask" .asyncinvshutter,
   unary "set_counter" "mask" .countermask,
   { name := "set_dds",
     params := [channel, ⟨"frequency", .slot, true⟩, ⟨"amplitude", .slot, true⟩,
       ⟨"phase", .slot, true⟩],
     template := [⟨.ddsfrq, [.argument "channel", .argument "frequency"]⟩,
       ⟨.ddsamp, [.argument "channel", .argument "amplitude"]⟩,
       ⟨.ddsphs, [.argument "channel", .argument "phase"]⟩] },
   { name := "write_pipe", params := [⟨"value", .accumulator, false⟩],
     template := [⟨.writepipe, []⟩] },
   { name := "read_pipe", params := [⟨"target", .target, true⟩],
     template := [⟨.readpipe, []⟩, ⟨.stwr, [.argument "target"]⟩], use := .value },
   unary "set_ram_address" "address" .setramaddr,
   { name := "read_ram", params := [], template := [⟨.ramread, []⟩], use := .value },
   { name := "exit", params := [slot "code"],
     template := [⟨.ldwr, [.argument "code"]⟩, ⟨.writepipe, []⟩, ⟨.finish, []⟩] },
   unary "wait_trigger" "mask" .waitfortrigger,
   { name := "load_count", params := [slot "counter"],
     template := [⟨.ldcount, [.argument "counter"]⟩], use := .value },
   { name := "dac_out", params := [channel, slot "value"],
     template := [⟨.dacout, [.argument "channel", .argument "value"]⟩] },
   { name := "serial_write", params := [slot "value"],
     template := [⟨.serialwrite, [.number 0, .argument "value"]⟩] },
   { name := "rand", params := [], template := [⟨.rand, [.number 0]⟩], use := .value },
   { name := "rand_seed", params := [slot "value"],
     template := [⟨.randseed, [.number 0, .argument "value"]⟩] },
   { name := "pipe_empty", params := [], template := [], use := .condition },
   { name := "write_result", params := [channel, slot "value"],
     template := [⟨.writeresulttopipe, [.argument "channel", .argument "value"]⟩] },
   { name := "set_sync_time", params := [], template := [⟨.setsynctime, []⟩] },
   { name := "wait_sync", params := [], template := [⟨.waitforsync, []⟩] }]

def find? (name : String) : Option Builtin := all.find? fun b => b.name == name

end Builtin

namespace TemplateLine

def operandText : TemplateOperand → String
  | .argument param => "\x7b" ++ param ++ "\x7d"
  | .number n => toString n

/-- The line with the names of its arguments in braces. -/
def text (t : TemplateLine) : String :=
  " ".intercalate (t.opcode.mnemonic ::
    (if t.operands.isEmpty then [] else [", ".intercalate (t.operands.map operandText)]))

/-- The operands of the instruction, if every argument is there. -/
def fill? (t : TemplateLine) (argument? : String → Option String) : Option (List String) :=
  t.operands.mapM fun operand => match operand with
    | .argument param => argument? param
    | .number n => some (toString n)

end TemplateLine

end PulseSequencer.Ppp
