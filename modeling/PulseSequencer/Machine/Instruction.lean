import PulseSequencer.Bytes
import PulseSequencer.Number.Radix

/-
# PulseSequencer.Machine.Instruction -- the instruction set

Every opcode has a number, a mnemonic, and a kind of operand.  The processor has
one accumulator W, a comparison flag, a return stack, and a data memory addressed
in bytes.  An instruction word has its opcode in the upper eight bits and the operand
below.  `disassemble` writes an image as assembly text with plain numbers.
-/

namespace PulseSequencer

set_option autoImplicit false

/-- What the 24-bit operand of an instruction refers to. -/
inductive OperandKind where
  | none
  /-- The data-memory address of a variable. -/
  | data
  /-- The instruction-memory address of a label. -/
  | code
  /-- A channel in bits 12 to 19 above a data address in bits 0 to 11. -/
  | channelData
  /-- A number. -/
  | literal
deriving Repr, DecidableEq

inductive Opcode where
  | nop | ddsfrq | ddsamp | ddsphs | ddschn | shuttermask | asyncshutter | countermask | trigger
  | update | wait | ddsfrqfine | ldwr | ldwi | stwr | stwi | ldindf | stindf | andw | orw | addw
  | subw | multw | divw | inc | dec | clrw | shl | shr | cmp | cmpequal | cmpnotequal | cmpless
  | cmpgreater | cmpge | cmple | jmp | jmpz | jmpnz | jmpcmp | jmpncmp | push | pop | jmppush
  | jmppop | updateindf | waitfortrigger | setsynctime | waitforsync | waitddswritedone
  | asyncinvshutter | dacout | serialwrite | setparameter | sendenablemask | ldcount
  | ldtdccount | ldadccount | ldadcsum | ldactive | rand | randseed | writepipe | writepipeindf
  | readpipe | readpipeindf | writeresulttopipe | jmppipeavail | jmppipeempty | setramaddr
  | ramread | ramreadindf | jmpramvalid | jmpraminvalid | ldcountindf | waitfortriggerindf
  | dds9910Saveamp | dds9910Savephs | dds9910Savefrq | dds9910Setapf | dds9910Rampstepup
  | dds9910Rampstepdown | dds9910Ramptimestepup | dds9910Ramptimestepdown | dds9910Ramplow
  | dds9910Ramphigh | dds9910Rampcontrol | dds9910Rampstart | dds9910Rampstop | finish
deriving Repr, DecidableEq

namespace Opcode

/-- All opcodes, in the order of their numbers. -/
def all : List Opcode :=
  [.nop, .ddsfrq, .ddsamp, .ddsphs, .ddschn, .shuttermask, .asyncshutter, .countermask, .trigger,
   .update, .wait, .ddsfrqfine, .ldwr, .ldwi, .stwr, .stwi, .ldindf, .stindf, .andw, .orw, .addw,
   .subw, .multw, .divw, .inc, .dec, .clrw, .shl, .shr, .cmp, .cmpequal, .cmpnotequal, .cmpless,
   .cmpgreater, .cmpge, .cmple, .jmp, .jmpz, .jmpnz, .jmpcmp, .jmpncmp, .push, .pop, .jmppush,
   .jmppop, .updateindf, .waitfortrigger, .setsynctime, .waitforsync, .waitddswritedone,
   .asyncinvshutter, .dacout, .serialwrite, .setparameter, .sendenablemask, .ldcount, .ldtdccount,
   .ldadccount, .ldadcsum, .ldactive, .rand, .randseed, .writepipe, .writepipeindf, .readpipe,
   .readpipeindf, .writeresulttopipe, .jmppipeavail, .jmppipeempty, .setramaddr, .ramread,
   .ramreadindf, .jmpramvalid, .jmpraminvalid, .ldcountindf, .waitfortriggerindf, .dds9910Saveamp,
   .dds9910Savephs, .dds9910Savefrq, .dds9910Setapf, .dds9910Rampstepup, .dds9910Rampstepdown,
   .dds9910Ramptimestepup, .dds9910Ramptimestepdown, .dds9910Ramplow, .dds9910Ramphigh,
   .dds9910Rampcontrol, .dds9910Rampstart, .dds9910Rampstop, .finish]

def code : Opcode → Nat
  | .nop => 0x00
  | .ddsfrq => 0x01
  | .ddsamp => 0x02
  | .ddsphs => 0x03
  | .ddschn => 0x04
  | .shuttermask => 0x05
  | .asyncshutter => 0x06
  | .countermask => 0x07
  | .trigger => 0x08
  | .update => 0x09
  | .wait => 0x0a
  | .ddsfrqfine => 0x0b
  | .ldwr => 0x0c
  | .ldwi => 0x0d
  | .stwr => 0x0e
  | .stwi => 0x0f
  | .ldindf => 0x10
  | .stindf => 0x11
  | .andw => 0x12
  | .orw => 0x13
  | .addw => 0x14
  | .subw => 0x15
  | .multw => 0x16
  | .divw => 0x17
  | .inc => 0x18
  | .dec => 0x19
  | .clrw => 0x1a
  | .shl => 0x1b
  | .shr => 0x1c
  | .cmp => 0x1d
  | .cmpequal => 0x1e
  | .cmpnotequal => 0x1f
  | .cmpless => 0x20
  | .cmpgreater => 0x21
  | .cmpge => 0x22
  | .cmple => 0x23
  | .jmp => 0x24
  | .jmpz => 0x25
  | .jmpnz => 0x26
  | .jmpcmp => 0x27
  | .jmpncmp => 0x28
  | .push => 0x29
  | .pop => 0x2a
  | .jmppush => 0x2b
  | .jmppop => 0x2c
  | .updateindf => 0x2d
  | .waitfortrigger => 0x2e
  | .setsynctime => 0x2f
  | .waitforsync => 0x30
  | .waitddswritedone => 0x31
  | .asyncinvshutter => 0x32
  | .dacout => 0x33
  | .serialwrite => 0x34
  | .setparameter => 0x35
  | .sendenablemask => 0x36
  | .ldcount => 0x37
  | .ldtdccount => 0x38
  | .ldadccount => 0x39
  | .ldadcsum => 0x3a
  | .ldactive => 0x3b
  | .rand => 0x3c
  | .randseed => 0x3d
  | .writepipe => 0x3e
  | .writepipeindf => 0x3f
  | .readpipe => 0x40
  | .readpipeindf => 0x41
  | .writeresulttopipe => 0x42
  | .jmppipeavail => 0x43
  | .jmppipeempty => 0x44
  | .setramaddr => 0x45
  | .ramread => 0x46
  | .ramreadindf => 0x47
  | .jmpramvalid => 0x48
  | .jmpraminvalid => 0x49
  | .ldcountindf => 0x4a
  | .waitfortriggerindf => 0x4b
  | .dds9910Saveamp => 0x50
  | .dds9910Savephs => 0x51
  | .dds9910Savefrq => 0x52
  | .dds9910Setapf => 0x53
  | .dds9910Rampstepup => 0x54
  | .dds9910Rampstepdown => 0x55
  | .dds9910Ramptimestepup => 0x56
  | .dds9910Ramptimestepdown => 0x57
  | .dds9910Ramplow => 0x58
  | .dds9910Ramphigh => 0x59
  | .dds9910Rampcontrol => 0x5a
  | .dds9910Rampstart => 0x5b
  | .dds9910Rampstop => 0x5c
  | .finish => 0xff

def mnemonic : Opcode → String
  | .nop => "NOP"
  | .ddsfrq => "DDSFRQ"
  | .ddsamp => "DDSAMP"
  | .ddsphs => "DDSPHS"
  | .ddschn => "DDSCHN"
  | .shuttermask => "SHUTTERMASK"
  | .asyncshutter => "ASYNCSHUTTER"
  | .countermask => "COUNTERMASK"
  | .trigger => "TRIGGER"
  | .update => "UPDATE"
  | .wait => "WAIT"
  | .ddsfrqfine => "DDSFRQFINE"
  | .ldwr => "LDWR"
  | .ldwi => "LDWI"
  | .stwr => "STWR"
  | .stwi => "STWI"
  | .ldindf => "LDINDF"
  | .stindf => "STINDF"
  | .andw => "ANDW"
  | .orw => "ORW"
  | .addw => "ADDW"
  | .subw => "SUBW"
  | .multw => "MULTW"
  | .divw => "DIVW"
  | .inc => "INC"
  | .dec => "DEC"
  | .clrw => "CLRW"
  | .shl => "SHL"
  | .shr => "SHR"
  | .cmp => "CMP"
  | .cmpequal => "CMPEQUAL"
  | .cmpnotequal => "CMPNOTEQUAL"
  | .cmpless => "CMPLESS"
  | .cmpgreater => "CMPGREATER"
  | .cmpge => "CMPGE"
  | .cmple => "CMPLE"
  | .jmp => "JMP"
  | .jmpz => "JMPZ"
  | .jmpnz => "JMPNZ"
  | .jmpcmp => "JMPCMP"
  | .jmpncmp => "JMPNCMP"
  | .push => "PUSH"
  | .pop => "POP"
  | .jmppush => "JMPPUSH"
  | .jmppop => "JMPPOP"
  | .updateindf => "UPDATEINDF"
  | .waitfortrigger => "WAITFORTRIGGER"
  | .setsynctime => "SETSYNCTIME"
  | .waitforsync => "WAITFORSYNC"
  | .waitddswritedone => "WAITDDSWRITEDONE"
  | .asyncinvshutter => "ASYNCINVSHUTTER"
  | .dacout => "DACOUT"
  | .serialwrite => "SERIALWRITE"
  | .setparameter => "SETPARAMETER"
  | .sendenablemask => "SENDENABLEMASK"
  | .ldcount => "LDCOUNT"
  | .ldtdccount => "LDTDCCOUNT"
  | .ldadccount => "LDADCCOUNT"
  | .ldadcsum => "LDADCSUM"
  | .ldactive => "LDACTIVE"
  | .rand => "RAND"
  | .randseed => "RANDSEED"
  | .writepipe => "WRITEPIPE"
  | .writepipeindf => "WRITEPIPEINDF"
  | .readpipe => "READPIPE"
  | .readpipeindf => "READPIPEINDF"
  | .writeresulttopipe => "WRITERESULTTOPIPE"
  | .jmppipeavail => "JMPPIPEAVAIL"
  | .jmppipeempty => "JMPPIPEEMPTY"
  | .setramaddr => "SETRAMADDR"
  | .ramread => "RAMREAD"
  | .ramreadindf => "RAMREADINDF"
  | .jmpramvalid => "JMPRAMVALID"
  | .jmpraminvalid => "JMPRAMINVALID"
  | .ldcountindf => "LDCOUNTINDF"
  | .waitfortriggerindf => "WAITFORTRIGGERINDF"
  | .dds9910Saveamp => "DDS9910_SAVEAMP"
  | .dds9910Savephs => "DDS9910_SAVEPHS"
  | .dds9910Savefrq => "DDS9910_SAVEFRQ"
  | .dds9910Setapf => "DDS9910_SETAPF"
  | .dds9910Rampstepup => "DDS9910_RAMPSTEPUP"
  | .dds9910Rampstepdown => "DDS9910_RAMPSTEPDOWN"
  | .dds9910Ramptimestepup => "DDS9910_RAMPTIMESTEPUP"
  | .dds9910Ramptimestepdown => "DDS9910_RAMPTIMESTEPDOWN"
  | .dds9910Ramplow => "DDS9910_RAMPLOW"
  | .dds9910Ramphigh => "DDS9910_RAMPHIGH"
  | .dds9910Rampcontrol => "DDS9910_RAMPCONTROL"
  | .dds9910Rampstart => "DDS9910_RAMPSTART"
  | .dds9910Rampstop => "DDS9910_RAMPSTOP"
  | .finish => "END"

def operandKind : Opcode → OperandKind
  | .nop | .wait | .clrw | .jmppop | .ldactive | .writepipe | .readpipe | .ramread | .finish => .none
  | .jmp | .jmpz | .jmpnz | .jmpcmp | .jmpncmp | .jmppush | .jmppipeavail | .jmppipeempty
  | .jmpramvalid | .jmpraminvalid => .code
  | .ddsfrq | .ddsamp | .ddsphs | .ddsfrqfine | .dacout | .serialwrite | .setparameter
  | .randseed | .writeresulttopipe | .dds9910Saveamp | .dds9910Savephs | .dds9910Savefrq
  | .dds9910Rampstepup | .dds9910Rampstepdown | .dds9910Ramptimestepup
  | .dds9910Ramptimestepdown | .dds9910Ramplow | .dds9910Ramphigh | .dds9910Rampcontrol => .channelData
  | .ddschn | .ldwi | .stwi | .waitddswritedone | .rand | .dds9910Setapf | .dds9910Rampstart
  | .dds9910Rampstop => .literal
  | _ => .data

def ofMnemonic? (mnemonic : String) : Option Opcode := all.find? fun op => op.mnemonic == mnemonic

def ofCode? (code : Nat) : Option Opcode := all.find? fun op => op.code == code

end Opcode

/-! ## Words of instruction memory -/

structure Instruction where
  opcode : Opcode
  operand : Nat
deriving Repr, DecidableEq

namespace Instruction

/-- Operands lie below this. -/
def operandLimit : Nat := 0x1000000

def word (i : Instruction) : UInt32 :=
  UInt32.ofNat (i.opcode.code * operandLimit + i.operand % operandLimit)

def ofWord? (word : UInt32) : Option Instruction :=
  (Opcode.ofCode? (word.toNat / operandLimit)).map fun opcode =>
    ⟨opcode, word.toNat % operandLimit⟩

/-- The instruction as assembly text. -/
def text (i : Instruction) : String :=
  match i.opcode.operandKind with
  | .none =>
      if i.operand = 0 then i.opcode.mnemonic
      else i.opcode.mnemonic ++ " " ++ toString i.operand
  | .channelData =>
      i.opcode.mnemonic ++ " " ++ toString (i.operand / 4096) ++ ", " ++
        toString (i.operand % 4096)
  | _ => i.opcode.mnemonic ++ " " ++ toString i.operand

end Instruction

/-- Why an instruction image cannot be read. -/
inductive ImageFault where
  | raggedLength (bytes : Nat)
  | unknownOpcode (code address : Nat)
deriving Repr, DecidableEq

def ImageFault.message : ImageFault → String
  | .raggedLength bytes =>
      "instruction image length " ++ toString bytes ++ " is not a multiple of 4"
  | .unknownOpcode code address =>
      "unknown opcode " ++ hexText code 2 ++ " at address " ++ toString address

/-- The instruction words of an image. -/
def instructionBytes (code : List Instruction) : Bytes :=
  code.flatMap fun i => littleEndian 4 i.word.toNat

/-- The instructions from `address` on; a rest shorter than a word is not read. -/
def instructionsFrom (address : Nat) : Bytes → Except ImageFault (List Instruction)
  | a :: b :: c :: d :: rest =>
      let word := UInt32.ofNat (ofLittleEndian [a, b, c, d])
      match Instruction.ofWord? word with
      | none => .error (.unknownOpcode (word.toNat / Instruction.operandLimit) address)
      | some i => do return i :: (← instructionsFrom (address + 1) rest)
  | _ => .ok []

/-- One line of assembly text for every word of an image. -/
def disassemble (image : Bytes) : Except ImageFault (List String) := do
  if image.length % 4 ≠ 0 then throw (.raggedLength image.length)
  return (← instructionsFrom 0 image).map Instruction.text

end PulseSequencer
