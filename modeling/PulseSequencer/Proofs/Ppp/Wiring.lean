import PulseSequencer.Proofs.Ppp.CallSites
import PulseSequencer.Proofs.Ppp.Printing

/-
# PulseSequencer.Proofs.Ppp.Wiring -- what the operands of code name

An instruction has no operand, a cell, a small number, or a channel and a cell; only a
jump has a label, and jumps are the only ones to have one (`AssemblyLine.Wired`).  Each
cell is that of a variable or parameter in scope, of a folded value, or of a scratch cell
that is there when all code is made (`KnownCell`).  This holds of the code of every
formula, condition and statement: `wires_lower`, `wires_jump` and `wires_block`.
-/

namespace PulseSequencer.Ppp

open Setting

set_option autoImplicit false

/-! ## Operands -/

/-- The digits of a number are parts of a name. -/
theorem isName_append_nat (head : String) (isName : IsName head.toList) (n : Nat) :
    IsName (head ++ toString n).toList where
  some' none' := by
    rw [String.toList_append] at none'
    exact isName.some' (List.append_eq_nil_iff.1 none').1
  parts c there := by
    rw [String.toList_append, List.mem_append] at there
    rcases there with inHead | digit
    · exact isName.parts c inHead
    · exact isNamePart_of_isDigit (Number.isDigit_of_nat digit)

/-- The cells that code of a procedure names, with the pool behind all code. -/
inductive KnownCell (scope : Scope) (owner : String) (final : Pool) : String → Prop
  | inScope {cell : String} (is : IsCell scope cell) : KnownCell _ _ _ cell
  | parameter {name cell : String} {cells : List String}
      (found : scope.lookup name = some (.procedure cells)) (there : cell ∈ cells) :
      KnownCell _ _ _ cell
  | literal {key cell : String} (found : final.literals.get? key = some cell) :
      KnownCell _ _ _ cell
  | scratch {i : Nat} (taken : i < (final.scratch.get? owner).getD 0) :
      KnownCell _ _ _ (scratchName owner i)

/-- A label that the compiler made, or a procedure in scope. -/
def KnownLabel (scope : Scope) (label : String) : Prop :=
  IsName label.toList ∨ ∃ cells, scope.lookup label = some (.procedure cells)

/-- The operands of an instruction that is no jump. -/
inductive WiredOperands (cells : String → Prop) : List String → Prop
  | none : WiredOperands _ []
  | cell {name : String} (known : cells name) : WiredOperands _ [name]
  | number {n : Nat} (small : n ≤ 0xff) : WiredOperands _ [toString n]
  | channel {n : Nat} {name : String} (small : n ≤ 0xff) (known : cells name) :
      WiredOperands _ [toString n, name]

/-- A line of code: a label, or an instruction that jumps to a label or names cells. -/
inductive AssemblyLine.Wired (cells labels : String → Prop) : AssemblyLine → Prop
  | label {name : String} (isName : IsName name.toList) : Wired _ _ (.label name)
  | jump {op : Opcode} {label : String} (kind : op.operandKind = .code) (known : labels label) :
      Wired _ _ (.unary op label)
  | other {op : Opcode} {operands : List String} (kind : op.operandKind ≠ .code)
      (wired : WiredOperands cells operands) : Wired _ _ (.instruction op operands)

section Lines

variable {cells cells' labels labels' : String → Prop} {a b : List AssemblyLine}

theorem AssemblyLine.Wired.mono {line : AssemblyLine} (wired : line.Wired cells labels)
    (onCells : ∀ name, cells name → cells' name) (onLabels : ∀ name, labels name → labels' name) :
    line.Wired cells' labels' := by
  cases wired with
  | label isName => exact .label isName
  | jump kind known => exact .jump kind (onLabels _ known)
  | other kind wired =>
      refine .other kind ?_
      cases wired with
      | none => exact .none
      | cell known => exact .cell (onCells _ known)
      | number small => exact .number small
      | channel small known => exact .channel small (onCells _ known)

/-- Lines that are wired. -/
def WiredLines (cells labels : String → Prop) (code : List AssemblyLine) : Prop :=
  ∀ line ∈ code, line.Wired cells labels

theorem WiredLines.append (first : WiredLines cells labels a) (second : WiredLines cells labels b) :
    WiredLines cells labels (a ++ b) := List.forall_mem_append.2 ⟨first, second⟩

/-- A line of code whose operands are names. -/
def AssemblyLine.Coded (line : AssemblyLine) : Prop :=
  line.Wired (fun cell => IsName cell.toList) fun label => IsName label.toList

/-- Digits are a name for the assembler. -/
theorem isName_nat (n : Nat) : IsName (toString n).toList where
  some' none' := by
    have some' := Nat.toDigits_ne_nil (b := 10) (n := n)
    rw [← Nat.toList_repr] at some'
    exact some' none'
  parts c there := (isName_append_nat "x" (by decide) n).parts c (by
    rw [String.toList_append]
    exact List.mem_append_right _ there)

theorem AssemblyLine.Coded.neat {line : AssemblyLine} (coded : line.Coded) : line.Neat := by
  cases coded with
  | label isName => exact isName
  | jump _ known => exact List.forall_mem_singleton.2 known
  | other _ wired =>
      cases wired with
      | none => exact fun _ there => absurd there List.not_mem_nil
      | cell known => exact List.forall_mem_singleton.2 known
      | number _ => exact List.forall_mem_singleton.2 (isName_nat _)
      | channel _ known =>
          exact List.forall_mem_cons.2 ⟨isName_nat _, List.forall_mem_singleton.2 known⟩

/-- A line of code has no line feed in it. -/
theorem AssemblyLine.Coded.one_line {line : AssemblyLine} (coded : line.Coded) :
    '\n' ∉ line.text.toList := by
  have never : isNamePart '\n' = false := by decide
  have free : ∀ {op : Opcode} {operands : List String},
      (AssemblyLine.instruction op operands).Neat →
        '\n' ∉ (AssemblyLine.instruction op operands).text.toList := fun neat =>
    not_mem_instruction _ neat never (by decide) (by decide)
  cases coded with
  | label isName =>
      rw [label_toList]
      simp [isName.not_mem never]
  | jump kind known => exact free (AssemblyLine.Coded.neat (.jump kind known))
  | other kind wired => exact free (AssemblyLine.Coded.neat (.other kind wired))

theorem wired_nil : WiredLines cells labels [] := fun _ there => absurd there List.not_mem_nil

theorem wired_singleton {line : AssemblyLine} (wired : line.Wired cells labels) :
    WiredLines cells labels [line] := List.forall_mem_singleton.2 wired

theorem wired_cell {op : Opcode} {cell : String} (kind : op.operandKind ≠ .code)
    (known : cells cell) : WiredLines cells labels [.unary op cell] :=
  wired_singleton (.other kind (.cell known))

theorem wired_jumpIf {whenTrue whenFalse : Opcode} {wanted : Bool} {label : String}
    (kind : whenTrue.operandKind = .code) (kind' : whenFalse.operandKind = .code)
    (known : labels label) : WiredLines cells labels [jumpIf whenTrue whenFalse wanted label] := by
  refine wired_singleton (.jump ?_ known)
  split <;> assumption

end Lines

/-- A part of the lowering whose code is wired. -/
def Wires (s : Setting) (final : Pool) (m : Lowering (List AssemblyLine)) : Prop :=
  ∀ p code q, Made m p code q → q.Adds s.constants final →
    WiredLines (KnownCell s.scope s.procedure final) (KnownLabel s.scope) code

/-- A part of the lowering whose code is wired, for an operand that is a known cell. -/
def WiresOperand (s : Setting) (final : Pool) (m : Lowering (List AssemblyLine × String)) : Prop :=
  ∀ p code cell q, Made m p (code, cell) q → q.Adds s.constants final →
    WiredLines (KnownCell s.scope s.procedure final) (KnownLabel s.scope) code ∧
      KnownCell s.scope s.procedure final cell

/-- What a formula is lowered to, with code that is wired. -/
structure WiresLowered (s : Setting) (final : Pool) (l : Lowered) : Prop where
  climbs : LoweredClimbs s l
  load : Wires s final l.load
  operand : WiresOperand s final l.operand

section Formulas

variable {s : Setting} {final : Pool}

theorem knownCell_of_literal {start : Nat} {formula : Formula} {p q : Pool} {cell : String}
    (made : Made (s.literal start formula) p cell q) (added : q.Adds s.constants final) :
    KnownCell s.scope s.procedure final cell := by
  obtain ⟨_, _, _, _, _, found, _⟩ := made_literal made
  exact .literal (added.literals _ _ found)

theorem knownCell_of_takeScratch {p q : Pool} {cell : String} (made : Made s.takeScratch p cell q)
    (added : q.Adds s.constants final) : KnownCell s.scope s.procedure final cell := by
  obtain ⟨rfl, rfl⟩ := made_takeScratch.1 made
  have there := added.scratch s.procedure
  rw [Table.get?_insert, if_pos rfl, Option.getD_some] at there
  exact .scratch (by omega)

theorem knownCell_of_target {name cell : String} {position : Position} {p q : Pool}
    (made : Made (s.target name position) p cell q) : KnownCell s.scope s.procedure final cell := by
  obtain ⟨_, kind, slot, found⟩ := made_target made
  exact .inScope ⟨name, kind, slot, found⟩

theorem wires_complete {start : Nat} {formula : Formula} {load : Lowering (List AssemblyLine)}
    (climbs : LoweredClimbs s (s.complete start formula load))
    (wires : isConstant s.scope formula = false → Wires s final load) :
    WiresLowered s final (s.complete start formula load) := by
  refine ⟨climbs, fun p code q made added => ?_, fun p code cell q made added => ?_⟩
  · rw [made_complete_load] at made
    split at made
    · obtain ⟨cell, folded, rfl⟩ := made
      exact wired_cell (by decide) (knownCell_of_literal folded added)
    · rename_i unknown
      exact wires (Bool.eq_false_iff.2 unknown) p code q made added
  · rcases made_complete_operand made with ⟨_, folded, rfl⟩ |
      ⟨unknown, ⟨_, name, kind, slot, _, found, rfl, rfl⟩ | ⟨before, middle, loaded, taken, rfl⟩⟩
    · exact ⟨wired_nil, knownCell_of_literal folded added⟩
    · exact ⟨wired_nil, .inScope ⟨name, kind, slot, found⟩⟩
    · have added' := (climbs_takeScratch s middle cell q taken).1.toAdds.trans added
      have known := knownCell_of_takeScratch taken added
      exact ⟨(wires unknown p before middle loaded added').append (wired_cell (by decide) known),
        known⟩

theorem wires_loadName (offset : Nat) (name : String) : Wires s final (s.loadName offset name) := by
  intro p code q made added
  unfold loadName at made
  split at made
  · rename_i kind slot cell found
    obtain ⟨rfl, _⟩ := made_pure.1 made
    exact wired_cell (by decide) (.inScope ⟨name, kind, slot, found⟩)
  all_goals exact absurd made not_made_throw

theorem arithmetic?_kind {op : BinaryOp} {opcode : Opcode} (is : arithmetic? op = some opcode) :
    opcode.operandKind ≠ .code := by
  cases op <;> first | (obtain rfl := Option.some.inj is; decide) | cases is

theorem comparison?_kind {op : BinaryOp} {opcode : Opcode} (is : comparison? op = some opcode) :
    opcode.operandKind ≠ .code := by
  cases op <;> first | (obtain rfl := Option.some.inj is; decide) | cases is

/-- The operands of two formulas, and an instruction on the one in a cell. -/
theorem wires_operands {l r : Lowered} {opcode : Opcode} {p₁ p₂ p₃ : Pool}
    {before code : List AssemblyLine} {cell : String} (kind : opcode.operandKind ≠ .code)
    (onLeft : WiresLowered s final l) (onRight : WiresLowered s final r)
    (provided : Made r.operand p₁ (before, cell) p₂) (loaded : Made l.load p₂ code p₃)
    (added : p₃.Adds s.constants final) :
    WiredLines (KnownCell s.scope s.procedure final) (KnownLabel s.scope)
      (before ++ code ++ [.unary opcode cell]) := by
  obtain ⟨wiredRight, known⟩ := onRight.operand p₁ before cell p₂ provided
    ((onLeft.climbs.1 p₂ code p₃ loaded).1.toAdds.trans added)
  exact (wiredRight.append (onLeft.load p₂ code p₃ loaded added)).append (wired_cell kind known)

theorem wires_loadBinary (offset : Nat) (op : BinaryOp) {l r : Lowered}
    (onLeft : WiresLowered s final l) (onRight : WiresLowered s final r) :
    Wires s final (s.loadBinary offset op l r) := by
  intro p code q made added
  unfold loadBinary at made
  split at made
  · rename_i opcode arithmetic
    simp only [made_bind, made_pure] at made
    obtain ⟨⟨before, cell⟩, middle, provided, behind, _, loaded, rfl, rfl⟩ := made
    exact wires_operands (arithmetic?_kind arithmetic) onLeft onRight provided loaded added
  · split at made <;> exact absurd made not_made_throw

theorem wires_loadUnary (offset : Nat) (op : UnaryOp) {l : Lowered}
    (wires : WiresLowered s final l) : Wires s final (s.loadUnary offset op l) := by
  intro p code q made added
  unfold loadUnary at made
  split at made
  · exact absurd made not_made_throw
  · exact wires.load p code q made added
  · simp only [made_bind, made_pure] at made
    obtain ⟨⟨before, cell⟩, _, provided, rfl, rfl⟩ := made
    obtain ⟨wired, known⟩ := wires.operand p before cell _ provided added
    exact wired.append ((wired_singleton (.other (by decide) .none)).append
      (b := [.unary .subw cell]) (wired_cell (by decide) known))

end Formulas

/-! ## Commands -/

/-- What the value of a parameter is in the instructions of a command. -/
def Fits (cells : String → Prop) (kind : ParamKind) (value : String) : Prop :=
  match kind with
  | .slot | .target => cells value
  | .channel => ∃ n : Nat, n ≤ 0xff ∧ value = toString n
  | .accumulator => False

/-- Whether an operand stands for a parameter of one of these kinds. -/
def TemplateOperand.ofKinds (b : Builtin) (kinds : List ParamKind) : TemplateOperand → Bool
  | .argument name => b.params.all fun param => param.name != name || kinds.contains param.kind
  | .number n => kinds.contains .channel && decide (n ≤ 0xff)

/-- The text of an operand, if its argument is there. -/
def TemplateOperand.value? (argument? : String → Option String) : TemplateOperand → Option String
  | .argument name => argument? name
  | .number n => some (toString n)

theorem fill?_eq (line : TemplateLine) (argument? : String → Option String) :
    line.fill? argument? = line.operands.mapM (TemplateOperand.value? argument?) := rfl

/-- An instruction of a command that names a cell, a small number, or a channel and a cell. -/
def TemplateLine.wires (b : Builtin) (line : TemplateLine) : Bool :=
  line.opcode.operandKind != .code && match line.operands with
    | [] => true
    | [operand] =>
        operand.ofKinds b [.slot, .target] || operand.ofKinds b [.channel]
    | [channel, data] =>
        channel.ofKinds b [.channel] && data.ofKinds b [.slot, .target]
    | _ => false

theorem wires_of_mem {b : Builtin} (known : b ∈ Builtin.all) {line : TemplateLine}
    (there : line ∈ b.template) : line.wires b = true := by
  have all : (Builtin.all.all fun b => b.template.all (TemplateLine.wires b)) = true := by decide
  exact List.all_eq_true.1 (List.all_eq_true.1 all b known) line there

section Filling

variable {α β : Type} {f : α → Option β} {a b : α} {filled : List β}

theorem mapM_one (made : [a].mapM f = some filled) : ∃ x, f a = some x ∧ filled = [x] := by
  cases first : f a with
  | none => simp [first] at made
  | some x => exact ⟨x, rfl, by simpa [first, eq_comm] using made⟩

theorem mapM_two (made : [a, b].mapM f = some filled) :
    ∃ x y, f a = some x ∧ f b = some y ∧ filled = [x, y] := by
  cases first : f a with
  | none => simp [first] at made
  | some x =>
      cases second : f b with
      | none => simp [first, second] at made
      | some y => exact ⟨x, y, rfl, rfl, by simpa [first, second, eq_comm] using made⟩

end Filling

section Commands

variable {s : Setting} {final : Pool} {b : Builtin} {position : Position}

/-- What the parameters of a command stand for. -/
def FitParams (s : Setting) (final : Pool) (b : Builtin) (values : Table String String) : Prop :=
  ∀ name value, values.get? name = some value →
    ∃ param ∈ b.params, param.name = name ∧
      Fits (KnownCell s.scope s.procedure final) param.kind value

/-- What an operand of a command is filled with. -/
theorem fits_of_ofKinds {values : Table String String} (fit : FitParams s final b values)
    {kinds : List ParamKind} {operand : TemplateOperand} {value : String}
    (is : operand.ofKinds b kinds = true)
    (filled : operand.value? values.get? = some value) :
    ∃ kind ∈ kinds, Fits (KnownCell s.scope s.procedure final) kind value := by
  cases operand with
  | argument name =>
      obtain ⟨param, there, named, fits⟩ := fit name value filled
      have kind := List.all_eq_true.1 is param there
      rw [named] at kind
      exact ⟨param.kind, by simpa using kind, fits⟩
  | number n =>
      obtain rfl := Option.some.inj filled
      rw [TemplateOperand.ofKinds, Bool.and_eq_true] at is
      exact ⟨.channel, by simpa using is.1, n, of_decide_eq_true is.2, rfl⟩

theorem fits_cell {value : String} (fits : ∃ kind ∈ [ParamKind.slot, .target],
    Fits (KnownCell s.scope s.procedure final) kind value) :
    KnownCell s.scope s.procedure final value := by
  obtain ⟨kind, there, fits⟩ := fits
  simp only [List.mem_cons, List.not_mem_nil, or_false] at there
  rcases there with rfl | rfl <;> exact fits

theorem fits_channel {value : String} (fits : ∃ kind ∈ [ParamKind.channel],
    Fits (KnownCell s.scope s.procedure final) kind value) :
    ∃ n : Nat, n ≤ 0xff ∧ value = toString n := by
  obtain ⟨kind, there, fits⟩ := fits
  obtain rfl := List.mem_singleton.1 there
  exact fits

/-- The instructions of a command name what its parameters stand for. -/
theorem wired_expand {values : Table String String} (known : b ∈ Builtin.all)
    (fit : FitParams s final b values) :
    WiredLines (KnownCell s.scope s.procedure final) (KnownLabel s.scope) (expand b values) := by
  intro line there
  obtain ⟨template, inTemplate, filled⟩ := List.mem_filterMap.1 there
  obtain ⟨operands, all, rfl⟩ := Option.map_eq_some_iff.1 filled
  have wires := wires_of_mem known inTemplate
  rw [TemplateLine.wires, Bool.and_eq_true] at wires
  obtain ⟨kind, shape⟩ := wires
  refine .other (by simpa using kind) ?_
  rw [fill?_eq] at all
  split at shape
  · rename_i none'
    rw [none'] at all
    obtain rfl := Option.some.inj all
    exact .none
  · rename_i operand one
    rw [one] at all
    obtain ⟨value, here, rfl⟩ := mapM_one all
    rw [Bool.or_eq_true] at shape
    rcases shape with cell | channel
    · exact .cell (fits_cell (fits_of_ofKinds fit cell here))
    · obtain ⟨n, small, rfl⟩ := fits_channel (fits_of_ofKinds fit channel here)
      exact .number small
  · rename_i channel data two
    rw [two] at all
    obtain ⟨first, second, onChannel, onData, rfl⟩ := mapM_two all
    rw [Bool.and_eq_true] at shape
    obtain ⟨n, small, rfl⟩ := fits_channel (fits_of_ofKinds fit shape.1 onChannel)
    exact .channel small (fits_cell (fits_of_ofKinds fit shape.2 onData))
  · cases shape

theorem made_channel {argument : Lowered} {p q : Pool} {value : String}
    (made : Made (s.channel argument) p value q) : ∃ n : Nat, n ≤ 0xff ∧ value = toString n := by
  unfold channel at made
  split at made
  · exact absurd made not_made_throw
  · rw [made_bind] at made
    obtain ⟨folded, middle, _, made⟩ := made
    split at made
    · rename_i n _
      split at made
      · rename_i range
        obtain ⟨rfl, _⟩ := made_pure.1 made
        obtain ⟨k, rfl⟩ := Int.eq_ofNat_of_zero_le range.1
        exact ⟨k, by omega, rfl⟩
      · exact absurd made not_made_throw
    · exact absurd made not_made_throw

theorem wires_operandOf {param : Param} {argument : Lowered} {p q : Pool}
    {code : List AssemblyLine} {value : String} (wires : WiresLowered s final argument)
    (made : Made (s.operandOf b position param argument) p (code, value) q)
    (added : q.Adds s.constants final) :
    WiredLines (KnownCell s.scope s.procedure final) (KnownLabel s.scope) code ∧
      (param.kind ≠ .accumulator →
        Fits (KnownCell s.scope s.procedure final) param.kind value) := by
  unfold operandOf at made
  split at made
  · rename_i kind
    rw [kind]
    obtain ⟨wired, known⟩ := wires.operand _ _ _ _ made added
    exact ⟨wired, fun _ => known⟩
  · rename_i kind
    simp only [made_bind, made_pure, Prod.mk.injEq] at made
    obtain ⟨_, _, made, ⟨rfl, rfl⟩, _⟩ := made
    rw [kind]
    exact ⟨wired_nil, fun _ => made_channel made⟩
  · rename_i kind
    rw [kind]
    split at made
    · simp only [made_bind, made_pure, Prod.mk.injEq] at made
      obtain ⟨_, _, made, ⟨rfl, rfl⟩, _⟩ := made
      exact ⟨wired_nil, fun _ => knownCell_of_target made⟩
    · exact absurd made not_made_throw
  · rename_i kind
    simp only [made_pure, Prod.mk.injEq] at made
    obtain ⟨⟨rfl, _⟩, _⟩ := made
    exact ⟨wired_nil, fun other => absurd kind other⟩

variable {bound : Table String Lowered}
  (wires : ∀ n l, bound.get? n = some l → WiresLowered s final l)
include wires

theorem wires_operandsOf : ∀ {params : List Param} {done result : Operands} {p q : Pool},
    (∀ param ∈ params, param ∈ b.params) →
    Made (s.operands b position bound done params) p result q → q.Adds s.constants final →
    WiredLines (KnownCell s.scope s.procedure final) (KnownLabel s.scope) done.code →
    FitParams s final b done.values →
      WiredLines (KnownCell s.scope s.procedure final) (KnownLabel s.scope) result.code ∧
        FitParams s final b result.values
  | [], done, result, p, q, _, made, _, wired, fit => by
      obtain ⟨rfl, _⟩ := made_pure.1 made
      exact ⟨wired, fit⟩
  | param :: rest, done, result, p, q, own, made, added, wired, fit => by
      obtain ⟨this, others⟩ := List.forall_mem_cons.1 own
      rw [operands] at made
      split at made
      · split at made
        · exact wires_operandsOf others made added wired fit
        · exact absurd made not_made_throw
      · rename_i argument found
        simp only [made_bind] at made
        obtain ⟨⟨code, value⟩, middle, here, made⟩ := made
        have added' := (climbs_operands (fun n l found => (wires n l found).climbs) _ _ middle
          result q made).1.toAdds.trans added
        obtain ⟨onCode, fits⟩ := wires_operandOf (wires _ _ found) here added'
        refine wires_operandsOf others made added (wired.append onCode) fun name value' valued => ?_
        dsimp only at valued
        split at valued
        · exact fit name value' valued
        · rename_i kind
          rw [Table.get?_insert] at valued
          split at valued
          · rename_i same
            obtain rfl := Option.some.inj valued
            exact ⟨param, this, same.symm, fits kind⟩
          · exact fit name value' valued

theorem wires_loadAccumulator : Wires s final (loadAccumulator b bound) := by
  intro p code q made added
  unfold loadAccumulator at made
  split at made
  · obtain ⟨rfl, _⟩ := made_pure.1 made
    exact wired_nil
  · split at made
    · obtain ⟨rfl, _⟩ := made_pure.1 made
      exact wired_nil
    · rename_i found
      exact (wires _ _ found).load p code q made added

end Commands

/-! ## Calls -/

section Calls

variable {s : Setting} {final : Pool} {position : Position}

theorem wires_callBuiltin {b : Builtin} {arguments : List LoweredArgument}
    (known : b ∈ Builtin.all) (wires : ∀ a ∈ arguments, WiresLowered s final a.value) :
    Wires s final (s.callBuiltin b arguments position) := by
  intro p code q made added
  unfold callBuiltin at made
  split at made
  · exact absurd made not_made_throw
  · simp only [made_bind, made_pure] at made
    obtain ⟨bound, p₁, bind, done, p₂, computed, loads, _, loaded, rfl, rfl⟩ := made
    have onBound : ∀ n l, bound.get? n = some l → WiresLowered s final l := by
      intro n l found
      rcases (made_bindArguments bind).1 n l found with none' | ⟨a, there, rfl⟩
      · cases none'
      · exact wires a there
    have added' := (climbs_loadAccumulator (fun n l found => (onBound n l found).climbs) p₂ loads _
      loaded).1.toAdds.trans added
    obtain ⟨wired, fit⟩ := wires_operandsOf onBound (fun _ there => there) computed added' wired_nil
      fun name value none' => by cases none'
    exact (wired.append (wires_loadAccumulator onBound p₂ loads _ loaded added)).append
      (wired_expand known fit)

theorem wires_passArguments : ∀ {cells : List String} {arguments : List LoweredArgument},
    (∀ cell ∈ cells, KnownCell s.scope s.procedure final cell) →
    (∀ a ∈ arguments, WiresLowered s final a.value) →
      Wires s final (passArguments position cells arguments)
  | cell :: cells, a :: rest, onCells, wires => by
      intro p code q made added
      obtain ⟨known, others⟩ := List.forall_mem_cons.1 onCells
      obtain ⟨here, onRest⟩ := List.forall_mem_cons.1 wires
      rw [passArguments] at made
      split at made
      · exact absurd made not_made_throw
      · simp only [made_bind, made_pure] at made
        obtain ⟨load, middle, loaded, more, _, onward, rfl, rfl⟩ := made
        have added' := (climbs_passArguments position cells rest
          (fun a there => (onRest a there).climbs) middle more _ onward).1.toAdds.trans added
        exact (here.load p load middle loaded added').append
          ((wired_cell (by decide) known).append (a := [.unary .stwr cell])
            (wires_passArguments others onRest middle more _ onward added))
  | [], _, _, _ | _ :: _, [], _, _ => by
      intro p code q made _
      obtain ⟨rfl, _⟩ := made_pure.1 made
      exact wired_nil

theorem wires_call (predefines : Predefines s.scope) {name : String}
    {arguments : List LoweredArgument} {asValue : Bool}
    (wires : ∀ a ∈ arguments, WiresLowered s final a.value) :
    Wires s final (s.call name arguments position asValue) := by
  intro p code q made added
  unfold call at made
  split at made
  · rename_i b stands
    split at made
    · exact absurd made not_made_throw
    · exact absurd made not_made_throw
    · exact wires_callBuiltin (predefines name b stands) wires p code q made added
  · rename_i cells stands
    split at made
    · exact absurd made not_made_throw
    · simp only [made_bind, made_pure] at made
      obtain ⟨passed, _, passing, rfl, rfl⟩ := made
      exact (wires_passArguments (fun cell there => .parameter stands there) wires p passed _
        passing added).append (wired_singleton (.jump rfl (.inr ⟨cells, stands⟩)))
  all_goals exact absurd made not_made_throw

mutual

/-- **The code of a formula is wired.** -/
theorem wires_lower (predefines : Predefines s.scope) (start : Nat) : ∀ formula : Formula,
    formula.spelled = true → WiresLowered s final (s.lower start formula)
  | .name offset name, spelled => by
      have climbs := climbs_lower (s := s) start _ spelled
      rw [lower] at climbs ⊢
      exact wires_complete climbs fun _ => wires_loadName _ _
  | .unary offset op operand, spelled => by
      have climbs := climbs_lower (s := s) start _ spelled
      rw [lower] at climbs ⊢
      rw [Formula.spelled] at spelled
      exact wires_complete climbs fun _ =>
        wires_loadUnary _ op (wires_lower predefines start operand spelled)
  | .binary offset op left right, spelled => by
      have climbs := climbs_lower (s := s) start _ spelled
      rw [lower] at climbs ⊢
      rw [Formula.spelled, Bool.and_eq_true] at spelled
      exact wires_complete climbs fun _ =>
        wires_loadBinary _ op (wires_lower predefines start left spelled.1)
          (wires_lower predefines start right spelled.2)
  | .call offset function args, spelled => by
      have climbs := climbs_lower (s := s) start _ spelled
      rw [lower] at climbs ⊢
      rw [Formula.spelled] at spelled
      exact wires_complete climbs fun _ =>
        wires_call predefines (wires_lowerArguments predefines start args spelled)
  | .int _ _, spelled | .float _ _, spelled | .quantity _ _ _, spelled | .text _ _, spelled
  | .list _ _, spelled | .dict _ _, spelled | .index _ _ _, spelled => by
      have climbs := climbs_lower (s := s) start _ spelled
      rw [lower] at climbs ⊢
      all_goals first
        | exact wires_complete climbs fun _ _ _ _ made => absurd made not_made_throw
        | simp

theorem wires_lowerArguments (predefines : Predefines s.scope) (start : Nat) :
    ∀ args : List Formula, Formula.spelledItems args = true →
      ∀ a ∈ s.lowerArguments start args, WiresLowered s final a.value
  | [], _, a, there => by
      rw [lowerArguments] at there
      exact absurd there List.not_mem_nil
  | f :: rest, spelled, a, there => by
      rw [lowerArguments] at there
      rw [Formula.spelledItems, Bool.and_eq_true] at spelled
      rcases List.mem_cons.1 there with rfl | later
      · exact wires_lower predefines start f spelled.1
      · exact wires_lowerArguments predefines start rest spelled.2 a later

end

end Calls

/-! ## Conditions -/

section Conditions

variable {s : Setting} {final : Pool} {wanted : Bool} {label : String}

theorem newLabel_isName {kind label : String} {p q : Pool}
    (word : IsName ("__" ++ kind ++ "_").toList) (made : Made (newLabel kind) p label q) :
    IsName label.toList := by
  rw [(made_newLabel.1 made).1]
  exact isName_append_nat _ word _

theorem wires_jumpTest (predefines : Predefines s.scope) (start : Nat)
    (known : KnownLabel s.scope label) (formula : Formula) (spelled : formula.spelled = true) :
    Wires s final (s.jumpTest start wanted label formula) := by
  have onValue : Wires s final (do
      let code ← (s.lower start formula).load
      return code ++ [jumpIf .jmpnz .jmpz wanted label]) := by
    intro p code q made added
    simp only [made_bind, made_pure] at made
    obtain ⟨before, _, loaded, rfl, rfl⟩ := made
    exact ((wires_lower predefines start formula spelled).load p before _ loaded added).append
      (wired_jumpIf rfl rfl known)
  unfold jumpTest
  split
  · rename_i offset op left right
    split
    · rename_i opcode comparison
      intro p code q made added
      simp only [made_bind, made_pure] at made
      obtain ⟨⟨before, cell⟩, middle, provided, load, _, loaded, rfl, rfl⟩ := made
      rw [Formula.spelled, Bool.and_eq_true] at spelled
      have compared := wires_operands (comparison?_kind comparison)
        (wires_lower predefines start left spelled.1) (wires_lower predefines start right spelled.2)
        provided loaded added
      have jumps : WiredLines (KnownCell s.scope s.procedure final) (KnownLabel s.scope)
          [jumpIf .jmpcmp .jmpncmp wanted label] := wired_jumpIf rfl rfl known
      have both := compared.append jumps
      rwa [List.append_assoc] at both
    · exact onValue
  · split
    · split
      · split
        · intro p code q made _
          obtain ⟨rfl, _⟩ := made_pure.1 made
          exact wired_jumpIf rfl rfl known
        · exact fun p code q made => absurd made not_made_throw
      · exact onValue
    · exact onValue
  · exact onValue

theorem wires_jumpEither {kind : String} {settled : Bool}
    {left right : Bool → String → Lowering (List AssemblyLine)}
    (word : IsName ("__" ++ kind ++ "_").toList) (known : KnownLabel s.scope label)
    (climbs : ∀ b label, Climbs s.constants s.procedure (right b label))
    (onLeft : ∀ b label, KnownLabel s.scope label → Wires s final (left b label))
    (onRight : ∀ b label, KnownLabel s.scope label → Wires s final (right b label)) :
    Wires s final (jumpEither kind settled left right wanted label) := by
  intro p code q made added
  unfold jumpEither at made
  split at made
  · simp only [made_bind, made_pure] at made
    obtain ⟨first, middle, madeLeft, second, _, madeRight, rfl, rfl⟩ := made
    exact (onLeft _ _ known p first middle madeLeft
      ((climbs _ _ middle second _ madeRight).1.toAdds.trans added)).append
        (onRight _ _ known middle second _ madeRight added)
  · simp only [made_bind, made_pure] at made
    obtain ⟨past, p', labelled, first, middle, madeLeft, second, _, madeRight, rfl, rfl⟩ := made
    have isPast := newLabel_isName word labelled
    exact ((onLeft _ _ (.inl isPast) _ first middle madeLeft
      ((climbs _ _ middle second _ madeRight).1.toAdds.trans added)).append
        (onRight _ _ known middle second _ madeRight added)).append
          (wired_singleton (.label isPast))

/-- **The code of a condition is wired.** -/
theorem wires_jump (predefines : Predefines s.scope) (start : Nat) (formula : Formula)
    (wanted : Bool) (label : String) (known : KnownLabel s.scope label)
    (spelled : formula.spelled = true) : Wires s final (s.jump start formula wanted label) := by
  cases constant : isConstant s.scope formula with
  | true =>
      intro p code q made _
      rw [jump_known constant, made_bind] at made
      obtain ⟨value, middle, _, made⟩ := made
      obtain ⟨rfl, rfl⟩ := made_pure.1 made
      split
      · exact wired_singleton (.jump rfl known)
      · exact wired_nil
  | false =>
      cases single : isSingle formula with
      | true =>
          rw [jump_single constant single]
          exact wires_jumpTest predefines start known formula spelled
      | false =>
          match formula with
          | .unary offset .not operand =>
              rw [jump_not constant]
              rw [Formula.spelled] at spelled
              exact wires_jump predefines start operand _ _ known spelled
          | .binary offset .and left right =>
              rw [jump_and constant]
              rw [Formula.spelled, Bool.and_eq_true] at spelled
              exact wires_jumpEither (by decide) known
                (fun b label => climbs_jump start right b label spelled.2)
                (fun b label known => wires_jump predefines start left b label known spelled.1)
                (fun b label known => wires_jump predefines start right b label known spelled.2)
          | .binary offset .or left right =>
              rw [jump_or constant]
              rw [Formula.spelled, Bool.and_eq_true] at spelled
              exact wires_jumpEither (by decide) known
                (fun b label => climbs_jump start right b label spelled.2)
                (fun b label known => wires_jump predefines start left b label known spelled.1)
                (fun b label known => wires_jump predefines start right b label known spelled.2)

end Conditions

/-! ## Statements -/

/-- A part of the lowering whose placed code is wired. -/
def WiresPlaced (s : Setting) (final : Pool) (m : Lowering (List PlacedLine)) : Prop :=
  ∀ p code q, Made m p code q → q.Adds s.constants final →
    WiredLines (KnownCell s.scope s.procedure final) (KnownLabel s.scope) (code.map PlacedLine.line)

section Statements

variable {s : Setting} {final : Pool}

theorem wired_placed {cells labels : String → Prop} {line : Nat} {code : List AssemblyLine}
    (wired : WiredLines cells labels code) :
    WiredLines cells labels ((placed line code).map PlacedLine.line) := by
  rwa [placed_lines]

theorem wired_map_append {cells labels : String → Prop} {a b : List PlacedLine}
    (first : WiredLines cells labels (a.map PlacedLine.line))
    (second : WiredLines cells labels (b.map PlacedLine.line)) :
    WiredLines cells labels ((a ++ b).map PlacedLine.line) := by
  rw [List.map_append]
  exact first.append second

theorem wires_assign (predefines : Predefines s.scope) (position : Position) (name : String)
    (op : Option AssignOp) (value : SourceFormula) (spelled : value.formula.spelled = true) :
    Wires s final (s.assign position name op value) := by
  intro p code q made added
  have wires : WiresLowered s final (s.lower value.start value.formula) :=
    wires_lower predefines value.start value.formula spelled
  simp only [assign, made_bind] at made
  obtain ⟨cell, _, targeted, made⟩ := made
  have known : KnownCell s.scope s.procedure final cell := knownCell_of_target targeted
  cases op with
  | none =>
      simp only [made_bind, made_pure] at made
      obtain ⟨before, _, loaded, rfl, rfl⟩ := made
      exact (wires.load _ before _ loaded added).append (wired_cell (by decide) known)
  | some op =>
      simp only [made_bind, made_pure] at made
      obtain ⟨⟨before, operand⟩, _, provided, rfl, rfl⟩ := made
      obtain ⟨wired, isKnown⟩ := wires.operand _ before operand _ provided added
      have kind : op.opcode.operandKind ≠ .code := by cases op <;> decide
      exact wired.append ((wired_cell (by decide) known).append (a := [_])
        ((wired_cell kind isKnown).append (a := [_]) (wired_cell (by decide) known)))

theorem wires_leave (predefines : Predefines s.scope) (position : Position)
    (value : Option SourceFormula) (spelled : AllSpelled value.toList) :
    Wires s final (s.leave position value) := by
  intro p code q made added
  have back : WiredLines (KnownCell s.scope s.procedure final) (KnownLabel s.scope)
      [.instruction .jmppop []] := wired_singleton (.other (by decide) .none)
  unfold leave at made
  split at made
  · exact absurd made not_made_throw
  · cases value with
    | none =>
        simp only [made_bind, made_pure] at made
        obtain ⟨_, _, ⟨rfl, _⟩, rfl, _⟩ := made
        exact back
    | some value =>
        simp only [made_bind, made_pure] at made
        obtain ⟨load, _, loaded, rfl, rfl⟩ := made
        exact ((wires_lower predefines value.start value.formula
          (spelled value (List.mem_singleton.2 rfl))).load _ load _ loaded added).append back

theorem wires_lowerCallArguments (predefines : Predefines s.scope) {arguments : List Argument}
    (spelled : AllSpelled (arguments.map (·.value))) :
    ∀ a ∈ s.lowerCallArguments arguments, WiresLowered s final a.value := by
  intro a there
  obtain ⟨argument, given, rfl⟩ := List.mem_map.1 there
  exact wires_lower predefines _ _ (spelled argument.value (List.mem_map_of_mem given))

mutual

theorem wires_statement (s : Setting) (predefines : Predefines s.scope) : ∀ statement : Statement,
    AllSpelled statement.formulas → hasAssembly statement = false →
      WiresPlaced s final (s.statement statement)
  | .assign position target op value, spelled, _ => by
      intro p code q made added
      rw [Statement.formulas, allSpelled_cons] at spelled
      rw [Setting.statement] at made
      simp only [made_bind, made_get, made_pure] at made
      obtain ⟨_, _, ⟨rfl, rfl⟩, text, p', assigned, _, _, freed, rfl, rfl⟩ := made
      exact wired_placed (wires_assign (s := { s with line := position.line }) predefines position
        target op value spelled.1 _ text p' assigned
          ((adds_freeScratch freed).trans added))
  | .cond position branches otherwise, spelled, plain => by
      intro p code q made added
      rw [Statement.formulas, allSpelled_append] at spelled
      rw [hasAssembly, Bool.or_eq_false_iff] at plain
      rw [Setting.statement] at made
      simp only [made_bind, made_get, made_pure] at made
      obtain ⟨_, _, ⟨rfl, rfl⟩, last, p₁, labelled, first, p₂, madeFirst, rest, p₃, madeRest, _, _,
        freed, rfl, rfl⟩ := made
      have added' := (adds_freeScratch freed).trans added
      have isLast := newLabel_isName (by decide) labelled
      refine wired_map_append (wired_map_append ?_ ?_)
        (wired_placed (wired_singleton (.label isLast)))
      · exact wires_branches { s with line := position.line } predefines _ _ (.inl isLast) _
          branches spelled.1 plain.1 p₁ first p₂ madeFirst
            ((grows_block s otherwise spelled.2 p₂ rest p₃ madeRest).toAdds.trans added')
      · exact wires_block s predefines otherwise spelled.2 plain.2 p₂ rest p₃ madeRest added'
  | .loop position condition body, spelled, plain => by
      intro p code q made added
      rw [Statement.formulas, allSpelled_cons] at spelled
      rw [hasAssembly] at plain
      rw [Setting.statement] at made
      simp only [made_bind, made_get, made_pure, jumpUnless] at made
      obtain ⟨_, _, ⟨rfl, rfl⟩, top, _, labelledTop, last, p₁, labelledLast, test, p₂, tested,
        inner, p₃, madeBody, _, _, freed, rfl, rfl⟩ := made
      have added' := (adds_freeScratch freed).trans added
      have isTop := newLabel_isName (by decide) labelledTop
      have isLast := newLabel_isName (by decide) labelledLast
      refine wired_map_append (wired_map_append (wired_placed ?_) ?_) (wired_placed ?_)
      · exact (wired_singleton (.label isTop)).append (wires_jump
          (s := { s with line := position.line }) predefines condition.start condition.formula
          false last (.inl isLast) spelled.1 p₁ test p₂ tested
          ((grows_block s body spelled.2 p₂ inner p₃ madeBody).toAdds.trans added'))
      · exact wires_block s predefines body spelled.2 plain p₂ inner p₃ madeBody added'
      · exact (wired_singleton (.jump rfl (.inl isTop))).append (wired_singleton (.label isLast))
  | .call position name arguments, spelled, _ => by
      intro p code q made added
      rw [Statement.formulas] at spelled
      rw [Setting.statement] at made
      simp only [made_bind, made_get, made_pure] at made
      obtain ⟨_, _, ⟨rfl, rfl⟩, text, p', called, _, _, freed, rfl, rfl⟩ := made
      exact wired_placed (wires_call (s := { s with line := position.line }) predefines
        (wires_lowerCallArguments (s := { s with line := position.line }) predefines spelled) _ text
          p' called
          ((adds_freeScratch freed).trans added))
  | .return position value, spelled, _ => by
      intro p code q made added
      rw [Statement.formulas] at spelled
      rw [Setting.statement] at made
      simp only [made_bind, made_get, made_pure] at made
      obtain ⟨_, _, ⟨rfl, rfl⟩, text, p', left, _, _, freed, rfl, rfl⟩ := made
      exact wired_placed (wires_leave (s := { s with line := position.line }) predefines position
        value spelled _ text p' left
          ((adds_freeScratch freed).trans added))
  | .pass _, _, _ => by
      intro p code q made _
      rw [Setting.statement, made_pure] at made
      obtain ⟨rfl, _⟩ := made
      exact wired_nil
  | .assembly _ _, _, plain => by
      rw [hasAssembly] at plain
      cases plain

theorem wires_branches (s : Setting) (predefines : Predefines s.scope) (depth : Nat) (last : String)
    (known : KnownLabel s.scope last) (ends : Bool) :
    ∀ branches : List (SourceFormula × List Statement),
      AllSpelled (Statement.branchFormulas branches) → branchesAssembly branches = false →
        WiresPlaced s final (s.branches depth last ends branches)
  | [], _, _ => by
      intro p code q made _
      rw [Setting.branches, made_pure] at made
      obtain ⟨rfl, _⟩ := made
      exact wired_nil
  | (condition, body) :: rest, spelled, plain => by
      intro p code q made added
      rw [Statement.branchFormulas, allSpelled_cons, allSpelled_append] at spelled
      rw [branchesAssembly, Bool.or_eq_false_iff] at plain
      obtain ⟨onCondition, onBody, onRest⟩ := spelled
      rw [Setting.branches] at made
      split at made
      · simp only [made_bind, made_pure, jumpUnless] at made
        obtain ⟨_, p₁, _, test, p₂, tested, inner, p₃, madeBody, rfl, rfl⟩ := made
        refine wired_map_append (wired_placed ?_) ?_
        · exact wires_jump predefines condition.start condition.formula false last known onCondition
            p₁ test p₂ tested ((grows_block s body onBody p₂ inner p₃ madeBody).toAdds.trans added)
        · exact wires_block s predefines body onBody plain.1 p₂ inner p₃ madeBody added
      · simp only [made_bind, made_pure, jumpUnless] at made
        obtain ⟨next, _, labelled, _, p₁, _, test, p₂, tested, inner, p₃, madeBody, more, p₄,
          madeMore, rfl, rfl⟩ := made
        have isNext := newLabel_isName (by decide) labelled
        have added' :=
          (grows_branches s depth last ends rest onRest p₃ more p₄ madeMore).toAdds.trans added
        refine wired_map_append (wired_map_append (wired_map_append (wired_placed ?_) ?_)
          (wired_placed ?_)) ?_
        · exact wires_jump predefines condition.start condition.formula false next (.inl isNext)
            onCondition p₁ test p₂ tested
              ((grows_block s body onBody p₂ inner p₃ madeBody).toAdds.trans added')
        · exact wires_block s predefines body onBody plain.1 p₂ inner p₃ madeBody added'
        · exact (wired_singleton (.jump rfl known)).append (wired_singleton (.label isNext))
        · exact wires_branches s predefines depth last known ends rest onRest plain.2 p₃ more p₄
            madeMore added

/-- **The code of statements is wired.** -/
theorem wires_block (s : Setting) (predefines : Predefines s.scope) : ∀ statements : List Statement,
    AllSpelled (Statement.blockFormulas statements) → blockAssembly statements = false →
      WiresPlaced s final (s.block statements)
  | [], _, _ => by
      intro p code q made _
      rw [Setting.block, made_pure] at made
      obtain ⟨rfl, _⟩ := made
      exact wired_nil
  | first :: rest, spelled, plain => by
      intro p code q made added
      rw [Statement.blockFormulas, allSpelled_append] at spelled
      rw [blockAssembly, Bool.or_eq_false_iff] at plain
      simp only [Setting.block, made_bind, made_pure] at made
      obtain ⟨one, middle, madeFirst, more, q', madeRest, rfl, rfl⟩ := made
      exact wired_map_append
        (wires_statement s predefines first spelled.1 plain.1 p one middle madeFirst
          ((grows_block s rest spelled.2 middle more q' madeRest).toAdds.trans added))
        (wires_block s predefines rest spelled.2 plain.2 middle more q' madeRest added)

end

end Statements

end PulseSequencer.Ppp
