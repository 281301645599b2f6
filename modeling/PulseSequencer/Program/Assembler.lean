import PulseSequencer.Formula.Evaluator
import PulseSequencer.Number.Binary
import PulseSequencer.Program.Basic

/-
# PulseSequencer.Program.Assembler -- from source lines to memory images

The first pass reads declarations, labels and instructions line by line; the
second turns operands into numbers, so that labels can be used before they are
defined.  A line is one of

* `const NAME VALUE`,
* `var NAME VALUE, TYPE, UNIT, ENCODING  # COMMENT`, all but the name and the
  first blank optional,
* `LABEL:`, with or without an instruction behind it,
* `MNEMONIC`, `MNEMONIC OPERAND` or `MNEMONIC CHANNEL, DATA`.
-/

namespace PulseSequencer.Assembler

set_option autoImplicit false

/-- An instruction whose operands are not resolved yet. -/
structure Statement where
  opcode : Opcode
  operands : List (List Char)
  /-- The index of the source line. -/
  line : Nat

/-- What the first pass has found so far. -/
structure Draft where
  constants : Table String Value := Table.empty
  vars : Table String Variable := Table.empty
  labels : Table String Nat := Table.empty
  statements : Array Statement := #[]

/-! ## Pieces of lines -/

def isIdentifierStart (c : Char) : Bool := c.isAlpha || c == '_'

def isIdentifierPart (c : Char) : Bool := c.isAlphanum || c == '_'

def isIdentifier : List Char → Bool
  | [] => false
  | c :: rest => isIdentifierStart c && rest.all isIdentifierPart

/-- How brackets and quotes stand at some place of a text. -/
structure Nesting where
  depth : Int := 0
  quote : Option Char := none

def Nesting.step (n : Nesting) (c : Char) : Nesting :=
  match n.quote with
  | some open' => if c = open' then { n with quote := none } else n
  | none =>
      if c = '"' ∨ c = '\'' then { n with quote := some c }
      else if c = '(' ∨ c = '[' ∨ c = '{' then { n with depth := n.depth + 1 }
      else if c = ')' ∨ c = ']' ∨ c = '}' then { n with depth := n.depth - 1 }
      else n

/-- The pieces between the commas that stand in no bracket and no quotes. -/
def splitFields (n : Nesting) : List Char → List (List Char)
  | [] => [[]]
  | c :: rest =>
      if c = ',' ∧ n.depth = 0 ∧ n.quote = none then [] :: splitFields n rest
      else match splitFields (n.step c) rest with
        | [] => [[c]]
        | piece :: pieces => (c :: piece) :: pieces

/-- The trimmed fields of a line; a blank line has none. -/
def fields (cs : List Char) : List (List Char) :=
  match (splitFields {} cs).map Text.trim with
  | [[]] => []
  | pieces => pieces

def fieldAt? (fs : List (List Char)) (i : Nat) : Option String :=
  match fs[i]? with
  | some [] | none => none
  | some f => some (String.ofList f)

def isHexDigit (c : Char) : Bool :=
  c.isDigit || ('a' ≤ c && c ≤ 'f') || ('A' ≤ c && c ≤ 'F')

def hexValue (c : Char) : Nat :=
  if c.isDigit then c.toNat - '0'.toNat
  else if 'a' ≤ c then c.toNat - 'a'.toNat + 10
  else c.toNat - 'A'.toNat + 10

/-- A hexadecimal number below `2^bits`; a plus sign may precede it. -/
def readHex? (bits : Nat) (cs : List Char) : Option Nat :=
  let digits := match cs with
    | '+' :: rest => rest
    | _ => cs
  if digits ≠ [] ∧ digits.all isHexDigit then
    let n := digits.foldl (fun n c => 16 * n + hexValue c) 0
    if n < pow2 bits then some n else none
  else none

/-- A number of 32 bits, in decimal or behind `0x`. -/
def literal? : List Char → Option Nat
  | '0' :: 'x' :: digits | '0' :: 'X' :: digits => readHex? 32 digits
  | cs => Number.readWord? 32 cs

/-! ## First pass -/

abbrev Pass (α : Type) := Except LineFault α

/-- Constants come before variables, and variables stand for their declared
value. -/
def Draft.scope (d : Draft) : Formula.Scope := fun name =>
  match d.constants.get? name with
  | some v => some v
  | none => (d.vars.get? name).map fun v => .quantity v.value

def Draft.evaluate (d : Draft) (text : String) : Pass Value :=
  match Formula.Evaluator.default.evaluate text d.scope with
  | .ok r => .ok r.value
  | .error e => .error (.formula e)

def Draft.declareConstant (d : Draft) (rest : List Char) : Pass Draft := do
  match Text.splitFirst? Text.isBlank (Text.trim rest) with
  | none => throw .constantShape
  | some (name, value) =>
      let v ← d.evaluate (String.ofList value)
      return { d with constants := d.constants.insert (String.ofList name) v }

/-- The declared value as a quantity in the declared unit. -/
def declaredQuantity (value : Value) (unit : Option String) : Pass Quantity := do
  let q ← match value with
    | .quantity q => pure q
    | other => match other.toFloat "var" with
      | .ok x => pure (Quantity.plain x)
      | .error _ => throw (.notNumeric other.display)
  match unit with
  | none => return q
  | some unit =>
      let inUnit := if q.isPlain then Quantity.ofText q.magnitude unit
        else do q.convert (← PhysicalUnit.parse unit)
      inUnit.mapError .unit

def declaredType (field : Option String) : Pass VariableType :=
  match field with
  | none => .ok .parameter
  | some name => match VariableType.ofName? name with
    | some t => .ok t
    | none => .error (.unknownType name)

/-- A variable from the fields of its declaration.  An integer is the exact mask
of a variable of a mask type. -/
def Draft.readVariable (d : Draft) (name : String) (fs : List (List Char))
    (comment : Option (List Char)) : Pass Variable := do
  let value ← d.evaluate ((fieldAt? fs 0).getD "0")
  let type ← declaredType (fieldAt? fs 1)
  let mask := match value with
    | .int bits => if type.isMask then some (UInt64.ofInt bits) else none
    | _ => none
  let unit := fieldAt? fs 2
  let quantity ← declaredQuantity value unit
  let encoding := fieldAt? fs 3
  match encoding.map Encoding.lookUp with
  | some (.error e) => throw (.encoding e)
  | _ => pure ()
  let comment := match comment with
    | some [] | none => none
    | some cs => some (String.ofList cs)
  return ({ name, type, value := quantity, unit, encoding, mask, comment
            expression := fieldAt? fs 0 : Variable }).placed d.vars.size

def Draft.declareVariable (d : Draft) (rest : List Char) (comment : Option (List Char)) :
    Pass Draft := do
  match Text.splitFirst? Text.isBlank (Text.trim rest) with
  | none => throw .variableShape
  | some (nameChars, fieldText) =>
      let name := String.ofList nameChars
      if !isIdentifier nameChars then throw (.invalidVariable name)
      if d.vars.contains name then throw (.duplicateVariable name)
      let v ← d.readVariable name (fields fieldText) comment
      return { d with vars := d.vars.insert name v }

/-- A label stands for the number of instructions before it. -/
def Draft.defineLabel (d : Draft) (label : List Char) : Pass Draft := do
  let name := String.ofList label
  if !isIdentifier label then throw (.invalidLabel name)
  if d.labels.contains name then throw (.duplicateLabel name)
  return { d with labels := d.labels.insert name d.statements.size }

def Draft.addStatement (d : Draft) (line : Nat) (statement : List Char) : Pass Draft := do
  let (mnemonic, operands) := (Text.splitFirst? Text.isBlank statement).getD (statement, [])
  match Opcode.ofMnemonic? (String.ofList (mnemonic.map Char.toUpper)) with
  | none => throw (.unknownMnemonic (String.ofList mnemonic))
  | some opcode =>
      let operands := (fields operands).filter (· ≠ [])
      return { d with statements := d.statements.push ⟨opcode, operands, line⟩ }

/-- Code and comment of a line, both trimmed. -/
def splitComment (line : List Char) : List Char × Option (List Char) :=
  match Text.splitFirst? (· = '#') line with
  | some (code, comment) => (Text.trim code, some (Text.trim comment))
  | none => (Text.trim line, none)

def Draft.readLine (d : Draft) (index : Nat) (line : List Char) : Pass Draft := do
  let (code, comment) := splitComment line
  if code = [] then return d
  match Text.after? ['c', 'o', 'n', 's', 't', ' '] code with
  | some rest => d.declareConstant rest
  | none =>
  match Text.after? ['v', 'a', 'r', ' '] code with
  | some rest => d.declareVariable rest comment
  | none =>
  match Text.splitFirst? (· = ':') code with
  | some (label, rest) =>
      let d ← d.defineLabel (Text.trim label)
      let statement := Text.trim rest
      if statement = [] then return d else d.addStatement index statement
  | none => d.addStatement index code

/-- A fault on a source line, shown with the trimmed line. -/
def lineError (line : SourceLine) (fault : LineFault) : ProgramError :=
  .line ⟨line.file, line.line, String.ofList (Text.trim line.text.toList), fault⟩

def firstPass (lines : List SourceLine) : Except ProgramError Draft :=
  lines.zipIdx.foldlM (fun d (line, index) =>
    (d.readLine index line.text.toList).mapError (lineError line)) {}

/-! ## Second pass -/

/-- A constant that is a whole number, cut to 32 bits. -/
def Draft.constantOperand? (d : Draft) (name : String) : Option Nat :=
  match (d.constants.get? name).map Value.toInt with
  | some (.ok n) => some (n % pow2 32).toNat
  | _ => none

/-- A number, a label or variable, or a constant.  Jumps look for labels first,
all other instructions for variables. -/
def Draft.resolveName (d : Draft) (kind : OperandKind) (operand : List Char) : Pass Nat :=
  match literal? operand with
  | some n => .ok n
  | none =>
      let name := String.ofList operand
      let label := d.labels.get? name
      let variableAddress := (d.vars.get? name).map Variable.address
      let address := if kind = .code then label.or variableAddress else variableAddress.or label
      match address.or (d.constantOperand? name) with
      | some n => .ok n
      | none => .error (.unresolved name)

/-- The operand of an instruction; two operands are a channel above a data
address. -/
def Draft.resolve (d : Draft) (s : Statement) : Pass Nat := do
  let kind := s.opcode.operandKind
  let operand ← match s.operands with
    | [] => pure 0
    | [operand] => d.resolveName kind operand
    | [channel, data] => do
        let channel ← d.resolveName kind channel
        if channel > 0xff then throw (.channelRange channel)
        let data ← d.resolveName kind data
        if data > 0xfff then throw (.dataRange data)
        pure (channel * 4096 + data)
    | _ => throw .tooManyOperands
  if operand ≥ Instruction.operandLimit then throw (.operandRange operand)
  return operand

def Draft.instruction (d : Draft) (lines : Array SourceLine) (s : Statement) :
    Except ProgramError Instruction := do
  match d.resolve s with
  | .ok operand => return ⟨s.opcode, operand⟩
  | .error fault => throw (lineError (lines[s.line]?.getD ⟨"", 0, ""⟩) fault)

/-! ## Both passes -/

/-- Assembles spliced sources; the notices tell which values have no word. -/
def run (limits : MemoryLimits) (sources : SourceSet) :
    Except ProgramError (Program × List Notice) := do
  let d ← firstPass sources.lines.toList
  if d.statements.size > limits.code then throw (.codeSize d.statements.size limits.code)
  if d.vars.size > limits.data then throw (.dataSize d.vars.size limits.data)
  let code ← d.statements.toList.mapM (d.instruction sources.lines)
  let program : Program :=
    { sources, limits, constants := d.constants, vars := d.vars, labels := d.labels
      code, codeLines := d.statements.toList.map Statement.line
      data := d.vars.values.map Variable.word }
  return (program, d.vars.values.flatMap Variable.notices)

end PulseSequencer.Assembler

namespace PulseSequencer.Program

set_option autoImplicit false

/-- Replaces the sources and assembles them; on an error nothing changes. -/
def load (p : Program) (name text : String) (library : Library) :
    Except ProgramError (Program × List Notice) := do
  let sources ← (SourceSet.expand name text library).mapError .line
  Assembler.run p.limits sources

/-- Assembles the loaded sources again: values return to their declarations. -/
def assemble (p : Program) : Except ProgramError (Program × List Notice) := do
  let (program, notices) ← Assembler.run p.limits p.sources
  return ({ program with lineLookup := p.lineLookup }, notices)

end PulseSequencer.Program
