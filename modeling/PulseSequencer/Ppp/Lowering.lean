import PulseSequencer.Encoding.Word
import PulseSequencer.Formula.Evaluator
import PulseSequencer.Ppp.Assembly
import PulseSequencer.Ppp.Error
import PulseSequencer.Ppp.Scope
import PulseSequencer.Ppp.Token

/-
# PulseSequencer.Ppp.Lowering -- formulas as code for the accumulator

What is known to the compiler is folded and kept in a cell of its own, so that
every operand names a cell.  The rest is computed in W; intermediate results go to
scratch cells, numbered by depth, of the procedure at hand.
-/

namespace PulseSequencer.Ppp

set_option autoImplicit false

/-- What grows while code is made. -/
structure Pool where
  /-- The declarations so far. -/
  declarations : List PlacedLine := []
  /-- The cells of folded values, by the text of the value. -/
  literals : Table String String := Table.empty
  /-- How many scratch cells each procedure needs. -/
  scratch : Table String Nat := Table.empty
  /-- How many scratch cells are in use. -/
  depth : Nat := 0
  /-- How many labels were made. -/
  labels : Nat := 0

/-- Code in the making. -/
abbrev Lowering := StateT Pool (Except CompileError)

/-- What is fixed while a formula becomes code. -/
structure Setting where
  map : SourceMap
  constants : Table String Value
  scope : Scope
  /-- The name of the procedure at hand; empty in the main program. -/
  procedure : String
  /-- The line of the statement at hand. -/
  line : Nat

namespace Setting

def reject {α : Type} (position : Position) (fault : CompileFault) : Lowering α :=
  throw ⟨position, fault⟩

/-- A fault at a byte of the source. -/
def rejectAt {α : Type} (s : Setting) (offset : Nat) (fault : CompileFault) : Lowering α :=
  throw ⟨s.map.position offset, fault⟩

/-! ## Cells and labels -/

def declare (line : Nat) (declaration : AssemblyLine) : Lowering Unit :=
  modify fun p => { p with declarations := p.declarations ++ [⟨declaration, some line⟩] }

def newLabel (kind : String) : Lowering String := do
  let n := (← get).labels + 1
  modify fun p => { p with labels := n }
  return "__" ++ kind ++ "_" ++ toString n

def scratchName (procedure : String) (index : Nat) : String :=
  if procedure.isEmpty then "__temp_" ++ toString index
  else "__" ++ procedure ++ "_temp_" ++ toString index

/-- The scratch cell above those in use. -/
def takeScratch (s : Setting) : Lowering String := do
  let p ← get
  let depth := p.depth + 1
  let count := max ((p.scratch.get? s.procedure).getD 0) depth
  set { p with depth, scratch := p.scratch.insert s.procedure count }
  return scratchName s.procedure p.depth

/-! ## Folding -/

mutual

/-- Whether the compiler knows the value. -/
def isConstant (scope : Scope) : Formula → Bool
  | .int _ _ | .float _ _ | .quantity _ _ _ | .text _ _ => true
  | .name _ name =>
      match scope.lookup name with
      | some (.constant _ _) => true
      | some _ => false
      | none => (Formula.constant? name).isSome
  | .unary _ _ operand => isConstant scope operand
  | .binary _ _ left right => isConstant scope left && isConstant scope right
  | .index _ target key => isConstant scope target && isConstant scope key
  | .call _ function args => (scope.lookup function).isNone && allConstant scope args
  | .list _ items => allConstant scope items
  | .dict _ items => allConstantPairs scope items

def allConstant (scope : Scope) : List Formula → Bool
  | [] => true
  | f :: rest => isConstant scope f && allConstant scope rest

def allConstantPairs (scope : Scope) : List (Formula × Formula) → Bool
  | [] => true
  | (k, v) :: rest => isConstant scope k && isConstant scope v && allConstantPairs scope rest

end

/-- The value of a formula of the source text at byte `start`. -/
def evaluate (map : SourceMap) (start : Nat) (formula : Formula) (scope : Formula.Scope) :
    Except CompileError Value :=
  match Formula.Evaluator.default.evaluateFormula formula scope with
  | .ok e => .ok e.value
  | .error e => .error ⟨map.position (start + e.offset?.getD 0), .formula e⟩

def fold (s : Setting) (start : Nat) (formula : Formula) : Lowering Value :=
  liftM (evaluate s.map start formula (.ofValues s.constants))

/-- Magnitude and unit of a value that a cell can hold. -/
def storable? : Value → Option (String × String)
  | .int n => some (toString n, "")
  | .bool b => some (toString (Value.ofBool b), "")
  | .float x => if x.isFinite then some (Number.plain x, "") else none
  | .quantity q =>
      if q.magnitude.isFinite then some (Number.plain q.magnitude, q.unit.symbol) else none
  | _ => none

/-- The cell of a folded formula; equal values share one. -/
def literal (s : Setting) (start : Nat) (formula : Formula) : Lowering String := do
  let value ← s.fold start formula
  match storable? value with
  | none => s.rejectAt (start + formula.offset) (.cannotStore value.display)
  | some (magnitude, unit) =>
      let key := magnitude ++ " " ++ unit
      let literals := (← get).literals
      match literals.get? key with
      | some name => return name
      | none =>
          let name := "__literal_" ++ toString literals.size
          declare s.line (.cell name [magnitude, "", unit])
          modify fun p => { p with literals := p.literals.insert key name }
          return name

/-! ## Calls -/

/-- A formula with the code that brings its value to W, and the code that brings it
to a cell.  The latter may use W. -/
structure Lowered where
  formula : Formula
  start : Nat
  load : Lowering (List AssemblyLine)
  operand : Lowering (List AssemblyLine × String)

structure LoweredArgument where
  keyword : Option String
  value : Lowered

def channel (s : Setting) (argument : Lowered) : Lowering String := do
  let offset := argument.start + argument.formula.offset
  if !isConstant s.scope argument.formula then s.rejectAt offset .channelNotConstant
  else
    let value ← s.fold argument.start argument.formula
    match value.toInt with
    | .ok n =>
        if 0 ≤ n ∧ n ≤ 0xff then return toString n
        else s.rejectAt offset (.invalidChannel value.display)
    | .error _ => s.rejectAt offset (.invalidChannel value.display)

/-- The cell of a variable that is written to. -/
def target (s : Setting) (name : String) (position : Position) : Lowering String :=
  match s.scope.lookup name with
  | some (.cell _ _ cell) => return cell
  | some (.constant _ _) => reject position (.assignToConstant name)
  | some _ => reject position (.assignTo name)
  | none => reject position (.undeclared name)

/-- Which argument goes to which parameter.  An argument without keyword goes to the
parameter at its place. -/
def bindArguments (b : Builtin) (position : Position) :
    Nat → Table String Lowered → List LoweredArgument → Lowering (Table String Lowered)
  | _, bound, [] => return bound
  | index, bound, argument :: rest =>
      let param := match argument.keyword with
        | none => b.params[index]?
        | some keyword => b.params.find? fun p => p.name == keyword
      match param with
      | none => reject position (.noArgument b.name (argument.keyword.getD ""))
      | some param =>
          if bound.contains param.name then reject position (.argumentTwice b.name param.name)
          else bindArguments b position (index + 1) (bound.insert param.name argument.value) rest

/-- The operands of a command, with the code that computes them, and at last the
code that loads W. -/
structure Operands where
  code : List AssemblyLine := []
  values : Table String String := Table.empty
  loads : List AssemblyLine := []

/-- The operand text of one argument, and the code in front of it. -/
def operandOf (s : Setting) (b : Builtin) (position : Position) (param : Param)
    (argument : Lowered) : Lowering (List AssemblyLine × String) :=
  match param.kind with
  | .slot => argument.operand
  | .channel => do return ([], ← s.channel argument)
  | .target =>
      match argument.formula with
      | .name _ name => do return ([], ← s.target name position)
      | other => s.rejectAt (argument.start + other.offset) (.needsVariable b.name param.name)
  | .accumulator => return ([], "")

/-- Computes the operands in the order of the parameters. -/
def operands (s : Setting) (b : Builtin) (position : Position) (bound : Table String Lowered) :
    Operands → List Param → Lowering Operands
  | done, [] => return done
  | done, param :: rest =>
      match bound.get? param.name with
      | none =>
          if param.omissible then operands s b position bound done rest
          else reject position (.missingArgument b.name param.name)
      | some argument => do
          let (code, value) ← s.operandOf b position param argument
          let values := if param.kind = .accumulator then done.values
            else done.values.insert param.name value
          operands s b position bound { done with code := done.code ++ code, values } rest

/-- The code that loads the argument for W, which comes after all others. -/
def loadAccumulator (b : Builtin) (bound : Table String Lowered) :
    Lowering (List AssemblyLine) :=
  match b.params.find? fun p => p.kind == .accumulator && bound.contains p.name with
  | none => return []
  | some param =>
      match bound.get? param.name with
      | none => return []
      | some argument => argument.load

def expand (b : Builtin) (values : Table String String) : List AssemblyLine :=
  b.template.filterMap fun line =>
    (line.fill? values.get?).map fun operands => .instruction line.opcode operands

def callBuiltin (s : Setting) (b : Builtin) (arguments : List LoweredArgument)
    (position : Position) : Lowering (List AssemblyLine) := do
  if arguments.length > b.params.length then
    reject position (.tooMany b.name b.params.length arguments.length)
  else
    let bound ← bindArguments b position 0 Table.empty arguments
    let done ← s.operands b position bound {} b.params
    let loads ← loadAccumulator b bound
    return done.code ++ loads ++ expand b done.values

/-- Stores the arguments one by one in the cells of a procedure. -/
def passArguments (position : Position) :
    List String → List LoweredArgument → Lowering (List AssemblyLine)
  | cell :: cells, argument :: arguments => do
      if argument.keyword.isSome then reject position .positionalOnly
      else
        let code ← argument.value.load
        let rest ← passArguments position cells arguments
        return code ++ .unary .stwr cell :: rest
  | _, _ => return []

/-- The code of a call.  Where `asValue`, its result is needed in W. -/
def call (s : Setting) (name : String) (arguments : List LoweredArgument) (position : Position)
    (asValue : Bool) : Lowering (List AssemblyLine) :=
  match s.scope.lookup name with
  | some (.builtin b) =>
      match b.use, asValue with
      | .condition, _ => reject position (.conditionBuiltin name)
      | .command, true => reject position (.noResult name)
      | _, _ => s.callBuiltin b arguments position
  | some (.procedure cells) =>
      if arguments.length ≠ cells.length then
        reject position (.wrongCount name cells.length arguments.length)
      else do
        let code ← passArguments position cells arguments
        return code ++ [.unary .jmppush name]
  | some _ => reject position (.notCallable name)
  | none => reject position (.unknownProcedure name)

/-! ## Formulas -/

/-- The instruction of an operator that W can compute. -/
def arithmetic? : BinaryOp → Option Opcode
  | .add => some .addw
  | .sub => some .subw
  | .mul => some .multw
  | .div => some .divw
  | _ => none

def comparison? : BinaryOp → Option Opcode
  | .eq => some .cmpequal
  | .ne => some .cmpnotequal
  | .lt => some .cmpless
  | .gt => some .cmpgreater
  | .ge => some .cmpge
  | .le => some .cmple
  | _ => none

/-- Completes the code that loads W: what the compiler knows is loaded from its own
cell, a variable is an operand as it stands, and all else goes to a scratch cell. -/
def complete (s : Setting) (start : Nat) (formula : Formula)
    (load : Lowering (List AssemblyLine)) : Lowered :=
  let load := if isConstant s.scope formula then do
      return [.unary .ldwr (← s.literal start formula)]
    else load
  let toScratch := do
    let code ← load
    let cell ← s.takeScratch
    return (code ++ [.unary .stwr cell], cell)
  let operand := if isConstant s.scope formula then do
      return ([], ← s.literal start formula)
    else match formula with
      | .name _ name =>
          match s.scope.lookup name with
          | some (.cell _ _ cell) => return ([], cell)
          | _ => toScratch
      | _ => toScratch
  ⟨formula, start, load, operand⟩

def loadName (s : Setting) (offset : Nat) (name : String) : Lowering (List AssemblyLine) :=
  match s.scope.lookup name with
  | some (.cell _ _ cell) => return [.unary .ldwr cell]
  | some _ => s.rejectAt offset (.notAValue name)
  | none => s.rejectAt offset (.undeclared name)

/-- The right operand is computed first, since both may need W. -/
def loadBinary (s : Setting) (offset : Nat) (op : BinaryOp) (left right : Lowered) :
    Lowering (List AssemblyLine) :=
  match arithmetic? op with
  | some opcode => do
      let (before, cell) ← right.operand
      let code ← left.load
      return before ++ code ++ [.unary opcode cell]
  | none =>
      match op with
      | .rem | .pow => s.rejectAt offset .compileTimeOnly
      | _ => s.rejectAt offset .conditionOnly

def loadUnary (s : Setting) (offset : Nat) (op : UnaryOp) (operand : Lowered) :
    Lowering (List AssemblyLine) :=
  match op with
  | .not => s.rejectAt offset .conditionOnly
  | .plus => operand.load
  | .neg => do
      let (before, cell) ← operand.operand
      return before ++ [.instruction .clrw [], .unary .subw cell]

mutual

def lower (s : Setting) (start : Nat) : Formula → Lowered
  | .name offset name => s.complete start (.name offset name) (s.loadName (start + offset) name)
  | .binary offset op left right =>
      s.complete start (.binary offset op left right)
        (s.loadBinary (start + offset) op (s.lower start left) (s.lower start right))
  | .unary offset op operand =>
      s.complete start (.unary offset op operand)
        (s.loadUnary (start + offset) op (s.lower start operand))
  | .call offset function args =>
      s.complete start (.call offset function args)
        (s.call function (s.lowerArguments start args) (s.map.position (start + offset)) true)
  | other => s.complete start other (s.rejectAt (start + other.offset) .notRunTime)

/-- The arguments of a call within a formula, which have no keywords. -/
def lowerArguments (s : Setting) (start : Nat) : List Formula → List LoweredArgument
  | [] => []
  | f :: rest => ⟨none, s.lower start f⟩ :: s.lowerArguments start rest

end

/-! ## Conditions -/

/-- A jump if the comparison flag, or another test, is as wanted. -/
def jumpIf (whenTrue whenFalse : Opcode) (wanted : Bool) (label : String) : AssemblyLine :=
  .unary (if wanted then whenTrue else whenFalse) label

/-- Jumps if a single condition, without logic operators, is as wanted. -/
def jumpTest (s : Setting) (start : Nat) (wanted : Bool) (label : String) (formula : Formula) :
    Lowering (List AssemblyLine) :=
  let onValue := do
    let code ← (s.lower start formula).load
    return code ++ [jumpIf .jmpnz .jmpz wanted label]
  match formula with
  | .binary _ op left right =>
      match comparison? op with
      | some opcode => do
          let (before, cell) ← (s.lower start right).operand
          let code ← (s.lower start left).load
          return before ++ code ++ [.unary opcode cell, jumpIf .jmpcmp .jmpncmp wanted label]
      | none => onValue
  | .call offset name args =>
      match s.scope.lookup name with
      | some (.builtin b) =>
          if b.use = .condition then
            if args.isEmpty then return [jumpIf .jmppipeempty .jmppipeavail wanted label]
            else s.rejectAt (start + offset) (.noArguments name)
          else onValue
      | _ => onValue
  | _ => onValue

/-- Tests two operands from left to right.  The left one alone settles the outcome if
its truth is `settled`; a label behind the code is needed where this outcome is not
the wanted one. -/
def jumpEither (kind : String) (settled : Bool)
    (left right : Bool → String → Lowering (List AssemblyLine))
    (wanted : Bool) (label : String) : Lowering (List AssemblyLine) := do
  if wanted = settled then
    let first ← left wanted label
    let second ← right wanted label
    return first ++ second
  else
    let past ← newLabel kind
    let first ← left (!wanted) past
    let second ← right wanted label
    return first ++ second ++ [.label past]

/-- Jumps to the label if the truth of the formula is as wanted, and goes on
otherwise. -/
def jump (s : Setting) (start : Nat) : Formula → Bool → String → Lowering (List AssemblyLine)
  | formula, wanted, label =>
    if isConstant s.scope formula then do
      let value ← s.fold start formula
      return if value.isTrue = wanted then [.jump label] else []
    else match formula with
      | .unary _ .not operand => s.jump start operand (!wanted) label
      | .binary _ .and left right =>
          jumpEither "and" false (s.jump start left) (s.jump start right) wanted label
      | .binary _ .or left right =>
          jumpEither "or" true (s.jump start left) (s.jump start right) wanted label
      | other => s.jumpTest start wanted label other

end Setting

end PulseSequencer.Ppp
