import PulseSequencer.Ppp.Lowering
import PulseSequencer.Ppp.Parser
import PulseSequencer.Program.Variable

/-
# PulseSequencer.Ppp.Compiler -- from a ppp source to assembly text

Declarations come first, then the statements of the main program, then the
procedures, whose arguments live in cells of their own.  Every line of code belongs
to the statement that it was made for.
-/

namespace PulseSequencer.Ppp

set_option autoImplicit false

/-! ## Declarations -/

/-- What the declarations so far have established. -/
structure Declared where
  scope : Scope := .program
  constants : Table String Value := Table.empty
  /-- The declared values of variables, which later declarations may use. -/
  initial : Table String Value := Table.empty
  lines : List PlacedLine := []

namespace Declared

/-- The names that the value of a declaration may use. -/
def visible (d : Declared) : Formula.Scope := fun name =>
  (d.constants.get? name).orElse fun _ => d.initial.get? name

def addLine (d : Declared) (line : Nat) (declaration : AssemblyLine) : Declared :=
  { d with lines := d.lines ++ [⟨declaration, some line⟩] }

def taken (name : String) : Symbol → CompileFault
  | .builtin _ => .isBuiltin name
  | .procedure _ => .isProcedure name
  | _ => .alreadyDeclared name

def define (d : Declared) (position : Position) (name : String) (symbol : Symbol)
    (fault : Symbol → CompileFault) : Except CompileError Declared :=
  match d.scope.define name symbol with
  | .ok scope => .ok { d with scope }
  | .error existing => .error ⟨position, fault existing⟩

/-- Type, unit and encoding of a variable. -/
structure Attributes where
  type : Option String
  unit : Option PhysicalUnit
  encoding : Option String

/-- The names behind a value: a type for plain variables, an encoding, or a unit. -/
def addAttribute (kind : DeclarationKind) (a : Attributes) (name : String) (position : Position) :
    Except CompileError Attributes :=
  if kind = .var ∧ (VariableType.ofName? name).isSome = true then .ok { a with type := some name }
  else if (Encoding.lookUp name).toOption.isSome then .ok { a with encoding := some name }
  else match PhysicalUnit.parse name with
    | .ok unit => .ok { a with unit := some unit }
    | .error _ => .error ⟨position, .badAttribute name⟩

def attributes (d : Declaration) : Except CompileError Attributes := do
  match d.encoding with
  | none => pure ()
  | some name =>
      match Encoding.lookUp name with
      | .ok _ => pure ()
      | .error e => throw ⟨d.position, .encoding e.message⟩
  d.attributes.foldlM (fun a (name, position) => addAttribute d.kind a name position)
    ⟨d.kind.typeName?, none, d.encoding⟩

/-- The dimension of the values that an encoding takes. -/
def encodingDimension (name : String) : Dimension :=
  match (Encoding.lookUp name).toOption.bind fun e => (PhysicalUnit.parse e.unit).toOption with
  | some unit => unit.dimension
  | none => .none

/-- A value with a unit has to fit the unit and the encoding of the variable. -/
def checkValue (position : Position) (text : String) (a : Attributes) (value : Quantity) :
    Except CompileError Unit := do
  if value.isPlain then return ()
  if let some unit := a.unit then
    if unit.dimension ≠ value.dimension then throw ⟨position, .unitMismatch text unit.symbol⟩
  if let some name := a.encoding then
    if encodingDimension name ≠ value.dimension then
      throw ⟨position, .encodingMismatch text name⟩

def declareConstant (d : Declared) (c : Declaration) (source : SourceFormula) (value : Value)
    (slot : Nat) : Except CompileError Declared := do
  let d ← d.define c.position c.name (.constant value slot) (taken c.name)
  return { d with constants := d.constants.insert c.name value }.addLine c.position.line
    (.constant c.name source.text)

def declareVariable (d : Declared) (v : Declaration) (value : Option Value) (slot : Nat) :
    Except CompileError Declared := do
  let a ← attributes v
  let text := (v.value.map (·.text)).getD "0"
  if let some (.quantity q) := value then checkValue v.position text a q
  let d ← d.define v.position v.name (.cell v.kind slot v.name) (taken v.name)
  let initial := match value with
    | some value => d.initial.insert v.name value
    | none => d.initial
  return { d with initial }.addLine v.position.line
    (.cell v.name [text, a.type.getD "", (a.unit.map PhysicalUnit.symbol).getD "", a.encoding.getD ""])

def declare (map : SourceMap) (d : Declared) (v : Declaration) :
    Except CompileError Declared := do
  let value ← v.value.mapM fun source => Setting.evaluate map source.start source.formula d.visible
  let (slot, scope) := d.scope.allocateSlot
  let d := { d with scope }
  if v.kind = .const then
    match v.value, value with
    | some source, some value => d.declareConstant v source value slot
    | _, _ => throw ⟨v.position, .missingValue v.kind.keyword⟩
  else d.declareVariable v value slot

/-- The cell of a parameter. -/
def parameterCell (procedure parameter : String) : String := procedure ++ "__" ++ parameter

/-- The cells that take the arguments of a procedure. -/
def cells (p : Procedure) : List String := p.parameters.map (parameterCell p.name)

def declareProcedure (d : Declared) (p : Procedure) : Except CompileError Declared :=
  let lines := (cells p).map fun cell => ⟨.cell cell ["0"], some p.position.line⟩
  { d with lines := d.lines ++ lines }.define p.position p.name (.procedure (cells p))
    fun _ => .alreadyDeclared p.name

def item (map : SourceMap) (d : Declared) : Item → Except CompileError Declared
  | .declaration v => d.declare map v
  | .procedure p => d.declareProcedure p
  | .statement _ => .ok d

end Declared

/-! ## Statements -/

/-- Marks code with the line of its statement. -/
def placed (line : Nat) (code : List AssemblyLine) : List PlacedLine :=
  code.map fun l => ⟨l, some line⟩

/-- Frees the scratch cells above the given number. -/
def freeScratch (depth : Nat) : Lowering Unit := modify fun p => { p with depth }

namespace Setting

/-- The code of a formula of the source. -/
def formula (s : Setting) (source : SourceFormula) : Lowered :=
  s.lower source.start source.formula

def lowerCallArguments (s : Setting) (arguments : List Argument) : List LoweredArgument :=
  arguments.map fun a => ⟨a.keyword, s.formula a.value⟩

/-- A jump past the code that depends on a condition. -/
def jumpUnless (s : Setting) (condition : SourceFormula) (label : String) :
    Lowering (List AssemblyLine) :=
  s.jump condition.start condition.formula false label

def assign (s : Setting) (position : Position) (target : String) (op : Option AssignOp)
    (value : SourceFormula) : Lowering (List AssemblyLine) := do
  let cell ← s.target target position
  match op with
  | none =>
      let code ← (s.formula value).load
      return code ++ [.unary .stwr cell]
  | some op =>
      let (code, operand) ← (s.formula value).operand
      return code ++ [.unary .ldwr cell, .unary op.opcode operand, .unary .stwr cell]

def leave (s : Setting) (position : Position) (value : Option SourceFormula) :
    Lowering (List AssemblyLine) := do
  if s.procedure.isEmpty then reject position .returnOutside
  else
    let code ← match value with
      | none => pure []
      | some value => (s.formula value).load
    return code ++ [.instruction .jmppop []]

mutual

/-- The code of a statement.  Its scratch cells are free again behind it. -/
def statement (s : Setting) : Statement → Lowering (List PlacedLine)
  | .assign position target op value => do
      let depth := (← get).depth
      let code ← { s with line := position.line }.assign position target op value
      freeScratch depth
      return placed position.line code
  | .cond position branches otherwise => do
      let depth := (← get).depth
      let last ← newLabel "endif"
      let code ← { s with line := position.line }.branches depth last otherwise.isEmpty branches
      let rest ← s.block otherwise
      freeScratch depth
      return code ++ rest ++ placed position.line [.label last]
  | .loop position condition body => do
      let depth := (← get).depth
      let top ← newLabel "while"
      let last ← newLabel "endwhile"
      let test ← { s with line := position.line }.jumpUnless condition last
      let code ← s.block body
      freeScratch depth
      return placed position.line (.label top :: test) ++ code ++
        placed position.line [.jump top, .label last]
  | .call position name arguments => do
      let depth := (← get).depth
      let s := { s with line := position.line }
      let code ← s.call name (s.lowerCallArguments arguments) position false
      freeScratch depth
      return placed position.line code
  | .return position value => do
      let depth := (← get).depth
      let code ← { s with line := position.line }.leave position value
      freeScratch depth
      return placed position.line code
  | .pass _ => return []
  | .assembly position text => return placed position.line [.verbatim text]

/-- The branches of a statement whose end is labelled `last`.  The last branch runs
into the end unless there is an `else`. -/
def branches (s : Setting) (depth : Nat) (last : String) (ends : Bool) :
    List (SourceFormula × List Statement) → Lowering (List PlacedLine)
  | [] => return []
  | (condition, body) :: rest => do
      if ends ∧ rest.isEmpty then
        freeScratch depth
        let test ← s.jumpUnless condition last
        let code ← s.block body
        return placed s.line test ++ code
      else
        let next ← newLabel "else"
        freeScratch depth
        let test ← s.jumpUnless condition next
        let code ← s.block body
        let more ← s.branches depth last ends rest
        return placed s.line test ++ code ++ placed s.line [.jump last, .label next] ++ more

def block (s : Setting) : List Statement → Lowering (List PlacedLine)
  | [] => return []
  | first :: rest => do
      let code ← s.statement first
      let more ← s.block rest
      return code ++ more

end

end Setting

/-! ## Programs -/

def Item.statement? : Item → Option Statement
  | .statement s => some s
  | _ => none

def Item.procedure? : Item → Option Procedure
  | .procedure p => some p
  | _ => none

/-- The line at which an item other than a statement starts. -/
def Item.declaredAt? : Item → Option Nat
  | .declaration d => some d.position.line
  | .procedure p => some p.position.line
  | .statement _ => none

/-- The line of the code that ends the main program. -/
def finalLine (items : List Item) : Nat :=
  match (items.filterMap Item.statement?).getLast? with
  | some s => s.position.line
  | none => (items.filterMap Item.declaredAt?).getLast?.getD 0

/-- The parameters of a procedure as names of its own scope. -/
def parameterScope (p : Procedure) (scope : Scope) : List String → Except CompileError Scope
  | [] => .ok scope
  | parameter :: rest =>
      let (slot, scope) := scope.allocateSlot
      match scope.define parameter (.cell .var slot (Declared.parameterCell p.name parameter)) with
      | .ok scope => parameterScope p scope rest
      | .error _ => .error ⟨p.position, .shadowsBuiltin parameter⟩

/-- A label, the body, and a return if the body does not end with one. -/
def procedureCode (s : Setting) (p : Procedure) : Lowering (List PlacedLine) := do
  let scope ← liftM (parameterScope p s.scope.child p.parameters)
  let body ← { s with scope, procedure := p.name }.block p.body
  let last := match p.body.getLast? with
    | some (.return _ _) => []
    | some other => placed other.position.line [.instruction .jmppop []]
    | none => placed p.position.line [.instruction .jmppop []]
  return placed p.position.line [.label p.name] ++ body ++ last

def proceduresCode (s : Setting) : List Procedure → Lowering (List PlacedLine)
  | [] => return []
  | p :: rest => do
      let code ← procedureCode s p
      let more ← proceduresCode s rest
      return code ++ more

/-- The instruction that keeps the main program from running into a procedure. -/
def mainEnd (items : List Item) (main : List PlacedLine) : List PlacedLine :=
  if (items.filterMap Item.procedure?).isEmpty then []
  else if (main.getLast?.map (·.line.text)) = some Opcode.finish.mnemonic then []
  else placed (finalLine items) [.instruction .finish []]

/-- The code of a program. -/
def programCode (map : SourceMap) (d : Declared) (items : List Item) :
    Lowering (List PlacedLine) := do
  let s : Setting := ⟨map, d.constants, d.scope, "", 0⟩
  let main ← s.block (items.filterMap Item.statement?)
  let procedures ← proceduresCode s (items.filterMap Item.procedure?)
  return main ++ mainEnd items main ++ procedures

/-- The scratch cells of every procedure. -/
def scratchCells (scratch : Table String Nat) : List PlacedLine :=
  scratch.entries.flatMap fun (procedure, count) =>
    (List.range count).map fun i => ⟨.cell (Setting.scratchName procedure i) ["0"], none⟩

def generate (map : SourceMap) (items : List Item) : Except CompileError Assembly := do
  let declared ← items.foldlM (Declared.item map) {}
  let (code, pool) ← (programCode map declared items).run { declarations := declared.lines }
  return ⟨pool.declarations ++ scratchCells pool.scratch ++ code⟩

/-- The assembly of a source. -/
def compile (source : String) : Except CompileError Assembly := do
  generate (SourceMap.ofSource source) (← parse source)

end PulseSequencer.Ppp
