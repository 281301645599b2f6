import PulseSequencer.Ppp.Assembly
import PulseSequencer.Proofs.Machine.Accumulator

/-
# PulseSequencer.Proofs.Ppp.LineMachine -- assembly lines as a program

Before lines are assembled they already are a program: cells and labels are names,
and declarations and labels are passed over.  `lineStep` executes the line at a place.
A line whose operand does not name a cell or label of the program stops it, so that
whatever runs here is found in the assembled code as well: `Layout` says where, and
`Layout.reaches` carries runs over.
-/

namespace PulseSequencer.Ppp

open PulseSequencer.Machine

set_option autoImplicit false

/-! ## Lines of a program -/

/-- The cells that lines declare, in order. -/
def cellNames (lines : List AssemblyLine) : List String :=
  lines.filterMap fun line => match line with
    | .cell name _ => some name
    | _ => none

/-- The labels that lines define, in order. -/
def labelNames (lines : List AssemblyLine) : List String :=
  lines.filterMap fun line => match line with
    | .label name => some name
    | _ => none

def AssemblyLine.isInstruction : AssemblyLine → Bool
  | .instruction _ _ => true
  | _ => false

def AssemblyLine.isDeclaration : AssemblyLine → Bool
  | .cell _ _ | .constant _ _ => true
  | _ => false

theorem AssemblyLine.not_instruction {line : AssemblyLine} (declares : line.isDeclaration = true) :
    line.isInstruction = false := by
  cases line <;> first
    | rfl
    | cases declares

/-- How many instructions stand before a place. -/
def address (lines : List AssemblyLine) (i : Nat) : Nat :=
  (lines.take i).countP AssemblyLine.isInstruction

@[simp] theorem cellNames_append (a b : List AssemblyLine) :
    cellNames (a ++ b) = cellNames a ++ cellNames b := List.filterMap_append ..

@[simp] theorem labelNames_append (a b : List AssemblyLine) :
    labelNames (a ++ b) = labelNames a ++ labelNames b := List.filterMap_append ..

theorem mem_cellNames {lines : List AssemblyLine} {name : String} :
    name ∈ cellNames lines ↔ ∃ fields, .cell name fields ∈ lines := by
  rw [cellNames, List.mem_filterMap]
  constructor
  · rintro ⟨line, there, named⟩
    cases line <;> simp at named
    exact ⟨_, named ▸ there⟩
  · rintro ⟨fields, there⟩
    exact ⟨_, there, rfl⟩

theorem mem_labelNames {lines : List AssemblyLine} {name : String} :
    name ∈ labelNames lines ↔ .label name ∈ lines := by
  rw [labelNames, List.mem_filterMap]
  constructor
  · rintro ⟨line, there, named⟩
    cases line <;> simp at named
    exact named ▸ there
  · intro there
    exact ⟨_, there, rfl⟩

theorem address_succ {lines : List AssemblyLine} {i : Nat} {line : AssemblyLine}
    (found : lines[i]? = some line) :
    address lines (i + 1) = address lines i + if line.isInstruction then 1 else 0 := by
  rw [address, List.take_add_one, found, List.countP_append, address]
  simp only [Option.toList_some, List.countP_singleton]

/-- `code` stands in `lines` from place `i` on. -/
def Placed (lines : List AssemblyLine) (i : Nat) (code : List AssemblyLine) : Prop :=
  ∃ before after, lines = before ++ code ++ after ∧ before.length = i

theorem Placed.left {lines : List AssemblyLine} {i : Nat} {a b : List AssemblyLine}
    (placed : Placed lines i (a ++ b)) : Placed lines i a := by
  obtain ⟨before, after, rfl, rfl⟩ := placed
  exact ⟨before, b ++ after, by simp, rfl⟩

theorem Placed.right {lines : List AssemblyLine} {i : Nat} {a b : List AssemblyLine}
    (placed : Placed lines i (a ++ b)) : Placed lines (i + a.length) b := by
  obtain ⟨before, after, rfl, rfl⟩ := placed
  exact ⟨before ++ a, after, by simp, by simp⟩

theorem Placed.getElem? {lines : List AssemblyLine} {i : Nat} {line : AssemblyLine}
    {rest : List AssemblyLine} (placed : Placed lines i (line :: rest)) :
    lines[i]? = some line := by
  obtain ⟨before, after, rfl, rfl⟩ := placed
  simp

theorem Placed.tail {lines : List AssemblyLine} {i : Nat} {line : AssemblyLine}
    {rest : List AssemblyLine} (placed : Placed lines i (line :: rest)) :
    Placed lines (i + 1) rest := placed.right (a := [line])

/-- A label that is defined once is found where it stands. -/
theorem findIdx?_label {lines : List AssemblyLine} {label : String} {j : Nat}
    (distinct : (labelNames lines).Nodup) (found : lines[j]? = some (.label label)) :
    lines.findIdx? (· = .label label) = some j := by
  obtain ⟨known, found⟩ := List.getElem?_eq_some_iff.1 found
  rw [List.findIdx?_eq_some_iff_getElem]
  refine ⟨known, by simp [found], fun k before same => ?_⟩
  have cut : lines = lines.take j ++ .label label :: lines.drop (j + 1) := by
    rw [← found, List.getElem_cons_drop, List.take_append_drop]
  rw [cut, labelNames_append] at distinct
  have earlier : label ∈ labelNames (lines.take j) := by
    rw [mem_labelNames, ← of_decide_eq_true same]
    exact List.mem_take_iff_getElem.2 ⟨k, by omega, rfl⟩
  exact (List.nodup_append.1 distinct).2.2 label earlier label (List.mem_cons_self ..) rfl

/-! ## Execution -/

/-- Executes the line at a place. -/
def lineStep (alu : Alu) (lines : List AssemblyLine) (a : At String) : Option (At String) :=
  match lines[a.1]? with
  | none | some (.verbatim _) => none
  | some (.cell _ _) | some (.constant _ _) | some (.label _) => some (a.1 + 1, a.2)
  | some (.instruction op operands) =>
      match op.operandKind, operands with
      | .none, [] => (alu.perform op "" a.2).map fun (s, _) => (a.1 + 1, s)
      | .data, [cell] =>
          if cell ∈ cellNames lines then
            (alu.perform op cell a.2).map fun (s, _) => (a.1 + 1, s)
          else none
      | .code, [label] =>
          (alu.perform op label a.2).bind fun (s, jumps) =>
            if jumps then (lines.findIdx? (· = .label label)).map fun j => (j, s)
            else some (a.1 + 1, s)
      | _, _ => none

section Steps

variable {alu : Alu} {lines : List AssemblyLine} {i : Nat} {s t : State String}

/-- A label is passed over. -/
theorem lineStep_label {name : String} (found : lines[i]? = some (.label name)) :
    lineStep alu lines (i, s) = some (i + 1, s) := by
  simp only [lineStep, found]

theorem lineStep_cell {op : Opcode} {cell : String} (kind : op.operandKind = .data)
    (found : lines[i]? = some (.unary op cell)) (known : cell ∈ cellNames lines)
    (performed : alu.perform op cell s = some (t, false)) :
    lineStep alu lines (i, s) = some (i + 1, t) := by
  simp only [lineStep, found, AssemblyLine.unary, kind, known, if_true, performed,
    Option.map_some]

theorem lineStep_pass {op : Opcode} {label : String} (kind : op.operandKind = .code)
    (found : lines[i]? = some (.unary op label))
    (performed : alu.perform op label s = some (t, false)) :
    lineStep alu lines (i, s) = some (i + 1, t) := by
  simp only [lineStep, found, AssemblyLine.unary, kind, performed, Option.bind_some,
    Bool.false_eq_true, if_false]

/-- Where every label is defined once, a jump goes to wherever its label stands. -/
theorem lineStep_jump {op : Opcode} {label : String} {j : Nat} (kind : op.operandKind = .code)
    (distinct : (labelNames lines).Nodup) (found : lines[i]? = some (.unary op label))
    (target : lines[j]? = some (.label label))
    (performed : alu.perform op label s = some (t, true)) :
    lineStep alu lines (i, s) = some (j, t) := by
  simp only [lineStep, found, AssemblyLine.unary, kind, performed, Option.bind_some, if_true,
    findIdx?_label distinct target, Option.map_some]

end Steps

/-! ## Assembled lines -/

/-- The instruction that a line has become, with its operand. -/
structure Assembled (lines : List AssemblyLine) (addressOf : String → Nat) (operands : List String)
    (instruction : Instruction) : Prop where
  cell : ∀ name ∈ cellNames lines, operands = [name] →
    instruction.opcode.operandKind = .data → instruction.operand = addressOf name
  label : ∀ name j, operands = [name] → lines[j]? = some (.label name) →
    instruction.opcode.operandKind = .code → instruction.operand = address lines j

/-- Where the lines of a program are found in assembled code: the cells at addresses of
their own, the instructions in order, and their operands resolved. -/
structure Layout (lines : List AssemblyLine) (code : List Instruction)
    (addressOf : String → Nat) : Prop where
  apart : ∀ a ∈ cellNames lines, ∀ b ∈ cellNames lines, addressOf a = addressOf b → a = b
  size : code.length = address lines lines.length
  instruction : ∀ i op operands, lines[i]? = some (.instruction op operands) →
    ∃ operand, code[address lines i]? = some ⟨op, operand⟩ ∧
      Assembled lines addressOf operands ⟨op, operand⟩

/-- The same state with cells by name and by address. -/
structure SameState (lines : List AssemblyLine) (addressOf : String → Nat) (s : State String)
    (t : State Nat) : Prop where
  w : t.w = s.w
  flag : t.flag = s.flag
  memory : ∀ cell ∈ cellNames lines, t.memory (addressOf cell) = s.memory cell

section Layout

variable {alu : Alu} {lines : List AssemblyLine} {code : List Instruction}
  {addressOf : String → Nat} {s s' : State String} {t : State Nat} {i j : Nat}

/-- An instruction does the same to the same state. -/
theorem SameState.perform (layout : Layout lines code addressOf)
    (same : SameState lines addressOf s t) {op : Opcode} {cell : String} {x : Nat} {jumps : Bool}
    (operand : op.operandKind = .data → cell ∈ cellNames lines ∧ x = addressOf cell)
    (performed : alu.perform op cell s = some (s', jumps)) :
    ∃ t', alu.perform op x t = some (t', jumps) ∧ SameState lines addressOf s' t' := by
  obtain ⟨w, flag, memory⟩ := same
  unfold Alu.perform at performed ⊢
  split at performed
  · rename_i stores
    subst stores
    obtain ⟨rfl, rfl⟩ := Prod.mk.inj (Option.some.inj performed)
    obtain ⟨known, rfl⟩ := operand rfl
    refine ⟨_, if_pos rfl, w, flag, fun other there => ?_⟩
    by_cases here : other = cell
    · subst here
      rw [State.store_same, State.store_same, w]
    · have differs : addressOf other ≠ addressOf cell := fun equal =>
        here (layout.apart other there cell known equal)
      rw [State.store_other _ differs, State.store_other _ here, memory other there]
  · rename_i keeps
    obtain ⟨⟨w', flag', jumps'⟩, effect, result⟩ := Option.map_eq_some_iff.1 performed
    obtain ⟨rfl, rfl⟩ := Prod.mk.inj result
    have read : alu.effect op t.w (t.memory x) t.flag = some (w', flag', jumps') := by
      rw [w, flag, ← effect]
      by_cases kind : op.operandKind = .data
      · obtain ⟨known, rfl⟩ := operand kind
        rw [memory cell known]
      · exact alu.effect_eq_of_kind kind ..
    exact ⟨{ t with w := w', flag := flag' }, by rw [if_neg keeps, read]; rfl, rfl, rfl, memory⟩

/-- **A line does in assembled code what it does among the lines**: an instruction
takes one step, and any other line none. -/
theorem Layout.step (layout : Layout lines code addressOf)
    (same : SameState lines addressOf s t)
    (stepped : lineStep alu lines (i, s) = some (j, s')) :
    ∃ t', SameState lines addressOf s' t' ∧
      ((lines[i]?.any AssemblyLine.isInstruction = true ∧
          alu.step code (address lines i, t) = some (address lines j, t')) ∨
        lines[i]?.any AssemblyLine.isInstruction = false ∧ t' = t ∧
          address lines j = address lines i) := by
  unfold lineStep at stepped
  dsimp only at stepped
  have silent : ∀ line, lines[i]? = some line → line.isInstruction = false →
      some (i + 1, s) = some (j, s') → ∃ t', SameState lines addressOf s' t' ∧
        ((lines[i]?.any AssemblyLine.isInstruction = true ∧
            alu.step code (address lines i, t) = some (address lines j, t')) ∨
          lines[i]?.any AssemblyLine.isInstruction = false ∧ t' = t ∧
            address lines j = address lines i) := by
    intro line found passive next
    obtain ⟨rfl, rfl⟩ := Prod.mk.inj (Option.some.inj next)
    exact ⟨t, same, .inr ⟨by rw [found]; exact passive, rfl,
      by rw [address_succ found, passive]; rfl⟩⟩
  split at stepped
  · simp at stepped
  · simp at stepped
  · rename_i found
    exact silent _ found rfl stepped
  · rename_i found
    exact silent _ found rfl stepped
  · rename_i found
    exact silent _ found rfl stepped
  · rename_i op operands found
    obtain ⟨x, coded, assembled⟩ := layout.instruction i op operands found
    have active : lines[i]?.any AssemblyLine.isInstruction = true := by rw [found]; rfl
    have next : address lines (i + 1) = address lines i + 1 := address_succ found
    have stepCode : ∀ {t' jumps}, alu.perform op x t = some (t', jumps) →
        alu.step code (address lines i, t) =
          some (if jumps then x else address lines (i + 1), t') := by
      intro t' jumps performed
      simp only [Alu.step, coded, performed, Option.map_some, next]
    split at stepped
    · rename_i kind
      obtain ⟨⟨u, jumps⟩, performed, result⟩ := Option.map_eq_some_iff.1 stepped
      obtain ⟨rfl, rfl⟩ := Prod.mk.inj result
      obtain ⟨t', performed', same'⟩ := same.perform (x := x) layout
        (fun data => absurd (kind.symm.trans data) (by decide)) performed
      obtain rfl := alu.perform_not_jumps (by rw [kind]; decide) performed
      exact ⟨t', same', .inl ⟨active, stepCode performed'⟩⟩
    · rename_i cell kind
      split at stepped
      · rename_i known
        obtain ⟨⟨u, jumps⟩, performed, result⟩ := Option.map_eq_some_iff.1 stepped
        obtain ⟨rfl, rfl⟩ := Prod.mk.inj result
        obtain ⟨t', performed', same'⟩ := same.perform layout
          (fun _ => ⟨known, assembled.cell cell known rfl kind⟩) performed
        obtain rfl := alu.perform_not_jumps (by rw [kind]; decide) performed
        exact ⟨t', same', .inl ⟨active, stepCode performed'⟩⟩
      · simp at stepped
    · rename_i label kind
      obtain ⟨⟨u, jumps⟩, performed, result⟩ := Option.bind_eq_some_iff.1 stepped
      obtain ⟨t', performed', same'⟩ := same.perform (x := x) layout
        (fun data => absurd (kind.symm.trans data) (by decide)) performed
      cases jumps with
      | false =>
          obtain ⟨rfl, rfl⟩ := Prod.mk.inj (Option.some.inj result)
          exact ⟨t', same', .inl ⟨active, stepCode performed'⟩⟩
      | true =>
          obtain ⟨place, target, result⟩ := Option.map_eq_some_iff.1 result
          obtain ⟨rfl, rfl⟩ := Prod.mk.inj result
          obtain ⟨known, labelled, _⟩ := List.findIdx?_eq_some_iff_getElem.1 target
          have there : lines[place]? = some (.label label) := by
            rw [List.getElem?_eq_getElem known, of_decide_eq_true labelled]
          have jump := stepCode performed'
          have lands : x = address lines place := assembled.label label place rfl there kind
          rw [if_pos rfl, lands] at jump
          exact ⟨t', same', .inl ⟨active, jump⟩⟩
    · simp at stepped

/-- **Runs among the lines are runs of assembled code.** -/
theorem Layout.reaches (layout : Layout lines code addressOf)
    (same : SameState lines addressOf s t)
    (reaches : Reaches (lineStep alu lines) (i, s) (j, s')) :
    ∃ t', SameState lines addressOf s' t' ∧
      Reaches (alu.step code) (address lines i, t) (address lines j, t') := by
  obtain ⟨n, reaches⟩ := reaches
  induction n generalizing i s t with
  | zero =>
      obtain ⟨rfl, rfl⟩ := Prod.mk.inj (Option.some.inj reaches)
      exact ⟨t, same, .refl _⟩
  | succ n ih =>
      rw [run, Option.bind_eq_some_iff] at reaches
      obtain ⟨⟨k, u⟩, first, rest⟩ := reaches
      obtain ⟨t', same', ⟨_, stepped⟩ | ⟨_, rfl, stays⟩⟩ := layout.step same first
      · obtain ⟨t'', same'', onward⟩ := ih same' rest
        exact ⟨t'', same'', .head stepped onward⟩
      · obtain ⟨t'', same'', onward⟩ := ih same' rest
        exact ⟨t'', same'', stays ▸ onward⟩

/-- Assembled code, started where a line has come to, runs past its last instruction
in so many steps. -/
def Ends (alu : Alu) (lines : List AssemblyLine) (code : List Instruction)
    (addressOf : String → Nat) (n i : Nat) (s : State String) : Prop :=
  ∃ t final, SameState lines addressOf s t ∧
    run (alu.step code) n (address lines i, t) = some (code.length, final)

theorem step_end (alu : Alu) (code : List Instruction) (t : State Nat) :
    alu.step code (code.length, t) = none := by
  simp only [Alu.step, List.getElem?_eq_none (Nat.le_refl _)]

/-- What runs to the end does so from everywhere that it passes. -/
theorem Ends.of_reaches {n : Nat} (layout : Layout lines code addressOf)
    (ends : Ends alu lines code addressOf n i s)
    (reaches : Reaches (lineStep alu lines) (i, s) (j, s')) :
    ∃ m, m ≤ n ∧ Ends alu lines code addressOf m j s' := by
  obtain ⟨t, final, same, ran⟩ := ends
  obtain ⟨t', same', onward⟩ := layout.reaches same reaches
  obtain ⟨m, le, rest⟩ := run_of_reaches ran (step_end alu code final) onward
  exact ⟨m, le, t', final, same', rest⟩

/-- An instruction takes one of the steps to the end. -/
theorem Ends.of_step {n : Nat} {op : Opcode} {operands : List String}
    (layout : Layout lines code addressOf) (ends : Ends alu lines code addressOf n i s)
    (found : lines[i]? = some (.instruction op operands))
    (stepped : lineStep alu lines (i, s) = some (j, s')) :
    ∃ m, m < n ∧ Ends alu lines code addressOf m j s' := by
  obtain ⟨t, final, same, ran⟩ := ends
  obtain ⟨t', same', ⟨_, onward⟩ | ⟨passive, _⟩⟩ := layout.step same stepped
  · obtain ⟨m, less, rest⟩ := run_of_step ran (step_end alu code final) onward
    exact ⟨m, less, t', final, same', rest⟩
  · rw [found] at passive
    exact absurd passive (by simp [AssemblyLine.isInstruction])

end Layout

end PulseSequencer.Ppp
