import PulseSequencer.Ppp.Compiler
import PulseSequencer.Program.Assembler
import PulseSequencer.Proofs.Machine.Accumulator

/-
# PulseSequencer.Proofs.Ppp.Meaning -- what a source says

A source of declarations, assignments, branchings and loops changes a store, which
has a word for every variable.  A formula that the compiler knows stands for the word
that the assembler makes of its text; the other formulas are computed from words by
the arithmetic unit.  `Executes` tells which store a source ends in, and has no rule
for one that does not end.
-/

namespace PulseSequencer.Ppp

open PulseSequencer.Machine

set_option autoImplicit false

/-- A word for every variable. -/
abbrev Store := String → Word

/-- The store with one variable written. -/
def Store.set (store : Store) (name : String) (w : Word) : Store :=
  fun other => if other = name then w else store other

/-- The word that the assembler makes of a magnitude and a unit. -/
def assembledWord (magnitude unit : String) : Option Word :=
  (Assembler.Draft.readVariable {} "" [magnitude.toList, [], unit.toList] none).toOption.map
    Variable.word

/-- What the formulas of a source are read with: the arithmetic unit, the symbols that
are declared, and the values of the constants. -/
structure Reading where
  alu : Alu
  scope : Scope
  constants : Table String Value

namespace Reading

/-- The operation of an arithmetic operator. -/
def arithmetic? (alu : Alu) : BinaryOp → Option (Word → Word → Word)
  | .add => some alu.add
  | .sub => some alu.sub
  | .mul => some alu.mul
  | .div => some alu.div
  | _ => none

def comparison? (alu : Alu) : BinaryOp → Option (Word → Word → Bool)
  | .eq => some alu.equal
  | .ne => some alu.notEqual
  | .lt => some alu.less
  | .gt => some alu.greater
  | .ge => some alu.greaterEqual
  | .le => some alu.lessEqual
  | _ => none

/-- The operation of an assignment such as `+=`. -/
def operation (alu : Alu) : AssignOp → Word → Word → Word
  | .add => alu.add
  | .sub => alu.sub
  | .mul => alu.mul
  | .div => alu.div
  | .and => alu.and
  | .or => alu.or
  | .shl => alu.shl
  | .shr => alu.shr

/-- The value of a formula that the compiler knows. -/
def constant (r : Reading) (formula : Formula) : Option Value :=
  (Formula.Evaluator.default.evaluateFormula formula (.ofValues r.constants)).toOption.map
    (·.value)

/-- The word of a formula that the compiler knows. -/
def constantWord (r : Reading) (formula : Formula) : Option Word := do
  let (magnitude, unit) ← Setting.storable? (← r.constant formula)
  assembledWord magnitude unit

/-- What the compiler knows is known, and all else computed. -/
def unlessKnown {α : Type} (r : Reading) (formula : Formula) (known computed : Option α) :
    Option α :=
  if Setting.isConstant r.scope formula then known else computed

/-- The word that a formula stands for. -/
def word (r : Reading) (store : Store) : Formula → Option Word
  | .name offset name =>
      let formula := .name offset name
      r.unlessKnown formula (r.constantWord formula) (some (store name))
  | .unary offset op operand =>
      let formula := .unary offset op operand
      r.unlessKnown formula (r.constantWord formula) (match op with
        | .plus => r.word store operand
        | .neg => (r.word store operand).map (r.alu.sub 0)
        | .not => none)
  | .binary offset op left right =>
      let formula := .binary offset op left right
      r.unlessKnown formula (r.constantWord formula) do
        (← arithmetic? r.alu op) (← r.word store left) (← r.word store right)
  | formula => r.unlessKnown formula (r.constantWord formula) none

/-- The truth of a formula.  A word other than zero is true. -/
def truth (r : Reading) (store : Store) : Formula → Option Bool
  | .unary offset op operand =>
      let formula := .unary offset op operand
      r.unlessKnown formula ((r.constant formula).map Value.isTrue) (match op with
        | .not => (r.truth store operand).map (!·)
        | _ => (r.word store formula).map (· != 0))
  | .binary offset op left right =>
      let formula := .binary offset op left right
      r.unlessKnown formula ((r.constant formula).map Value.isTrue) (match op with
        | .and => (r.truth store left).bind fun b => if b then r.truth store right else some false
        | .or => (r.truth store left).bind fun b => if b then some true else r.truth store right
        | op => match comparison? r.alu op with
          | some holds => do holds (← r.word store left) (← r.word store right)
          | none => (r.word store formula).map (· != 0))
  | formula =>
      r.unlessKnown formula ((r.constant formula).map Value.isTrue)
        ((r.word store formula).map (· != 0))

end Reading

/-! ## Execution -/

/-- A part of a source that is executed. -/
inductive Part where
  | statement (s : Statement)
  | block (statements : List Statement)
  | branches (branches : List (SourceFormula × List Statement)) (otherwise : List Statement)

/-- The execution of a part of a source from one store to another. -/
inductive Executes (r : Reading) : Part → Store → Store → Prop
  | assign {position : Position} {target : String} {value : SourceFormula} {store : Store}
      {w : Word} (read : r.word store value.formula = some w) :
      Executes r (.statement (.assign position target none value)) store (store.set target w)
  | update {position : Position} {target : String} {op : AssignOp} {value : SourceFormula}
      {store : Store} {w : Word} (read : r.word store value.formula = some w) :
      Executes r (.statement (.assign position target (some op) value)) store
        (store.set target (Reading.operation r.alu op (store target) w))
  | pass {position : Position} {store : Store} :
      Executes r (.statement (.pass position)) store store
  | cond {position : Position} {branches : List (SourceFormula × List Statement)}
      {otherwise : List Statement} {store next : Store}
      (executes : Executes r (.branches branches otherwise) store next) :
      Executes r (.statement (.cond position branches otherwise)) store next
  | leave {position : Position} {condition : SourceFormula} {body : List Statement}
      {store : Store} (fails : r.truth store condition.formula = some false) :
      Executes r (.statement (.loop position condition body)) store store
  | repeat {position : Position} {condition : SourceFormula} {body : List Statement}
      {store next last : Store} (holds : r.truth store condition.formula = some true)
      (executes : Executes r (.block body) store next)
      (again : Executes r (.statement (.loop position condition body)) next last) :
      Executes r (.statement (.loop position condition body)) store last
  | done {store : Store} : Executes r (.block []) store store
  | next {first : Statement} {rest : List Statement} {store middle last : Store}
      (executes : Executes r (.statement first) store middle)
      (onward : Executes r (.block rest) middle last) : Executes r (.block (first :: rest)) store last
  | taken {condition : SourceFormula} {body otherwise : List Statement}
      {rest : List (SourceFormula × List Statement)} {store next : Store}
      (holds : r.truth store condition.formula = some true)
      (executes : Executes r (.block body) store next) :
      Executes r (.branches ((condition, body) :: rest) otherwise) store next
  | skipped {condition : SourceFormula} {body otherwise : List Statement}
      {rest : List (SourceFormula × List Statement)} {store next : Store}
      (fails : r.truth store condition.formula = some false)
      (executes : Executes r (.branches rest otherwise) store next) :
      Executes r (.branches ((condition, body) :: rest) otherwise) store next
  | otherwise {otherwise : List Statement} {store next : Store}
      (executes : Executes r (.block otherwise) store next) :
      Executes r (.branches [] otherwise) store next

/-! ## Plain sources -/

/-- Variables, what is known when the source is compiled, and operators on them. -/
def plainFormula (known : Formula → Bool) : Formula → Bool
  | .name _ _ => true
  | .unary offset op operand => known (.unary offset op operand) || plainFormula known operand
  | .binary offset op left right =>
      known (.binary offset op left right) ||
        (plainFormula known left && plainFormula known right)
  | formula => known formula

mutual

/-- Assignments, branchings, loops and `pass`, with plain formulas. -/
def plainStatement (known : Formula → Bool) : Statement → Bool
  | .assign _ _ _ value => plainFormula known value.formula
  | .cond _ branches otherwise => plainBranches known branches && plainBlock known otherwise
  | .loop _ condition body => plainFormula known condition.formula && plainBlock known body
  | .pass _ => true
  | .call _ _ _ | .return _ _ | .assembly _ _ => false

def plainBlock (known : Formula → Bool) : List Statement → Bool
  | [] => true
  | first :: rest => plainStatement known first && plainBlock known rest

def plainBranches (known : Formula → Bool) : List (SourceFormula × List Statement) → Bool
  | [] => true
  | (condition, body) :: rest =>
      plainFormula known condition.formula && plainBlock known body && plainBranches known rest

end

/-! ## What statements contain -/

mutual

/-- Whether a statement contains assembly text. -/
def hasAssembly : Statement → Bool
  | .cond _ branches otherwise => branchesAssembly branches || blockAssembly otherwise
  | .loop _ _ body => blockAssembly body
  | .assembly _ _ => true
  | .assign _ _ _ _ | .call _ _ _ | .return _ _ | .pass _ => false

def branchesAssembly : List (SourceFormula × List Statement) → Bool
  | [] => false
  | (_, body) :: rest => blockAssembly body || branchesAssembly rest

def blockAssembly : List Statement → Bool
  | [] => false
  | first :: rest => hasAssembly first || blockAssembly rest

end

mutual

theorem hasAssembly_of_plain {known : Formula → Bool} : ∀ s : Statement,
    plainStatement known s = true → hasAssembly s = false
  | .assign _ _ _ _, _ | .pass _, _ => by rw [hasAssembly]
  | .cond _ branches otherwise, plain => by
      rw [plainStatement, Bool.and_eq_true] at plain
      rw [hasAssembly, branchesAssembly_of_plain branches plain.1, blockAssembly_of_plain _ plain.2]
      rfl
  | .loop _ _ body, plain => by
      rw [plainStatement, Bool.and_eq_true] at plain
      rw [hasAssembly, blockAssembly_of_plain body plain.2]

theorem branchesAssembly_of_plain {known : Formula → Bool} :
    ∀ branches : List (SourceFormula × List Statement),
      plainBranches known branches = true → branchesAssembly branches = false
  | [], _ => by rw [branchesAssembly]
  | (_, body) :: rest, plain => by
      rw [plainBranches, Bool.and_eq_true, Bool.and_eq_true] at plain
      rw [branchesAssembly, blockAssembly_of_plain body plain.1.2,
        branchesAssembly_of_plain rest plain.2]
      rfl

theorem blockAssembly_of_plain {known : Formula → Bool} : ∀ statements : List Statement,
    plainBlock known statements = true → blockAssembly statements = false
  | [], _ => by rw [blockAssembly]
  | first :: rest, plain => by
      rw [plainBlock, Bool.and_eq_true] at plain
      rw [blockAssembly, hasAssembly_of_plain first plain.1, blockAssembly_of_plain rest plain.2]
      rfl

end

/-- Whether an item contains assembly text. -/
def Item.hasAssembly : Item → Bool
  | .declaration _ => false
  | .procedure p => blockAssembly p.body
  | .statement s => Ppp.hasAssembly s

mutual

/-- The formulas of a statement. -/
def Statement.formulas : Statement → List SourceFormula
  | .assign _ _ _ value => [value]
  | .cond _ branches otherwise =>
      Statement.branchFormulas branches ++ Statement.blockFormulas otherwise
  | .loop _ condition body => condition :: Statement.blockFormulas body
  | .call _ _ arguments => arguments.map (·.value)
  | .return _ value => value.toList
  | .pass _ | .assembly _ _ => []

def Statement.blockFormulas : List Statement → List SourceFormula
  | [] => []
  | first :: rest => first.formulas ++ Statement.blockFormulas rest

def Statement.branchFormulas : List (SourceFormula × List Statement) → List SourceFormula
  | [] => []
  | (condition, body) :: rest =>
      condition :: (Statement.blockFormulas body ++ Statement.branchFormulas rest)

end

end PulseSequencer.Ppp
