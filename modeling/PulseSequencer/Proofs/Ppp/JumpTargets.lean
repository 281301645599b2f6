import PulseSequencer.Proofs.Ppp.CompiledLines

/-
# PulseSequencer.Proofs.Ppp.JumpTargets -- where the jumps of a compiled program lead

Every jump of a compiled program leads to a label of its code, so to one of its
instructions or to the place behind the last one.  The latter needs a label with nothing
behind it, such as the end of a loop that ends the source; behind a procedure there is
always a return.
-/

namespace PulseSequencer.Ppp

open Setting

set_option autoImplicit false

/-! ## Places of instructions -/

section Places

variable {lines : List AssemblyLine}

/-- Lines do not have fewer instructions before a later place. -/
theorem address_mono {i j : Nat} (le : i ≤ j) : address lines i ≤ address lines j :=
  (List.take_sublist_take_left le).countP_le

/-- The last instruction stands at the last address. -/
theorem address_lt_of_last {line : AssemblyLine} (last : lines.getLast? = some line)
    (runs : line.isInstruction = true) {j : Nat} (before : j < lines.length) :
    address lines j < address lines lines.length := by
  have here : lines[lines.length - 1]? = some line := by rw [← List.getLast?_eq_getElem?, last]
  have next := address_succ here
  rw [runs, if_pos rfl, Nat.sub_add_cancel (Nat.one_le_of_lt before)] at next
  have le : address lines j ≤ address lines (lines.length - 1) :=
    address_mono (Nat.le_sub_one_of_lt before)
  omega

/-- Every address below the number of instructions is that of an instruction. -/
theorem instruction_of_address {k : Nat} : ∀ {n : Nat}, n ≤ lines.length → k < address lines n →
    ∃ i op operands, lines[i]? = some (.instruction op operands) ∧ address lines i = k
  | 0, _, below => absurd below (Nat.not_lt_zero k)
  | n + 1, le, below => by
      have here : lines[n]? = some lines[n] := List.getElem?_eq_getElem le
      by_cases earlier : k < address lines n
      · exact instruction_of_address (Nat.le_of_lt le) earlier
      · rw [address_succ here] at below
        cases line : lines[n] with
        | instruction op operands =>
            rw [line] at here below
            simp only [AssemblyLine.isInstruction, if_true] at below
            exact ⟨n, op, operands, here, by omega⟩
        | _ =>
            rw [line] at below
            exact absurd below earlier

end Places

/-! ## The end of the code -/

/-- Code of procedures ends with a return. -/
theorem getLast?_proceduresCode {items : List Item} {declared : Declared} {s : Setting}
    (stands : declared.Stands items) (scope : s.scope = declared.scope) :
    ∀ {procedures : List Procedure} {a b : Pool} {code : List PlacedLine}, procedures ≠ [] →
    Made (proceduresCode s procedures) a code b →
      (code.map PlacedLine.line).getLast? = some (.instruction .jmppop [])
  | [], _, _, _, some', _ => absurd rfl some'
  | p :: rest, a, b, code, _, made => by
      rw [proceduresCode] at made
      simp only [made_bind, made_pure] at made
      obtain ⟨head, _, first, tail, _, onward, rfl, _⟩ := made
      rw [List.map_append, List.getLast?_append]
      by_cases none' : rest = []
      · subst none'
        obtain ⟨rfl, _⟩ := made_pure.1 onward
        exact (procedureCode_of_made stands scope first).last
      · rw [getLast?_proceduresCode stands scope none' onward]
        rfl

section Compilation

variable {source : String} {items : List Item} {declared : Declared} {code : List PlacedLine}
  {pool : Pool} (compilation : Compilation source items declared code pool)
include compilation

theorem Compilation.getLast?_of_procedure {p : Procedure} (there : .procedure p ∈ items) :
    (linesOf pool code).getLast? = some (.instruction .jmppop []) := by
  obtain ⟨main, procedures, _, _, onProcedures, rfl⟩ := compilation.pieces
  have some' : items.filterMap Item.procedure? ≠ [] :=
    List.ne_nil_of_mem (mem_procedures.2 there)
  rw [linesOf, ← List.append_assoc, List.map_append, List.getLast?_append,
    getLast?_proceduresCode compilation.stands rfl some' onProcedures]
  rfl

/-- A label of the code stands among all lines, and what comes last behind it is a label
or an instruction. -/
theorem Compilation.place_of_label {label : String}
    (there : label ∈ labelNames (code.map PlacedLine.line)) :
    ∃ j : Nat, (linesOf pool code)[j]? = some (.label label) ∧
      ∃ line, (linesOf pool code).getLast? = some line ∧
        ((∃ name, line = .label name) ∨ line.isInstruction = true) := by
  have inCode := mem_labelNames.1 there
  have shape : linesOf pool code =
      (pool.declarations ++ scratchCells pool.scratch).map PlacedLine.line ++
        code.map PlacedLine.line := List.map_append
  have inLines : AssemblyLine.label label ∈ linesOf pool code :=
    shape ▸ List.mem_append_right _ inCode
  obtain ⟨j, found⟩ := List.mem_iff_getElem?.1 inLines
  obtain ⟨line, last⟩ : ∃ line, (code.map PlacedLine.line).getLast? = some line :=
    Option.isSome_iff_exists.1 (List.getLast?_isSome.2 (List.ne_nil_of_mem inCode))
  refine ⟨j, found, line, by rw [shape, List.getLast?_append, last]; rfl, ?_⟩
  cases compilation.wired line (List.mem_of_getLast? last) with
  | label => exact .inl ⟨_, rfl⟩
  | jump | other => exact .inr rfl

/-- **An instruction of the assembled program that jumps has the address of a label.** -/
theorem Compilation.target {vars : Table String Variable} {instructions : List Instruction}
    (layout : Layout (linesOf pool code) instructions (cellAddress vars))
    {instruction : Instruction} (there : instruction ∈ instructions)
    (jumps : instruction.opcode.operandKind = .code) :
    ∃ label ∈ labelNames (code.map PlacedLine.line), ∀ j,
      (linesOf pool code)[j]? = some (.label label) →
        instruction.operand = address (linesOf pool code) j := by
  obtain ⟨k, found⟩ := List.mem_iff_getElem?.1 there
  have below : k < address (linesOf pool code) (linesOf pool code).length :=
    layout.size ▸ (List.getElem?_eq_some_iff.1 found).1
  obtain ⟨i, op, operands, line, rfl⟩ := instruction_of_address (Nat.le_refl _) below
  obtain ⟨operand, here, assembled⟩ := layout.instruction i op operands line
  obtain rfl := Option.some.inj (here.symm.trans found)
  cases compilation.wired _ (compilation.mem_code (List.mem_of_getElem? line)) with
  | jump _ known => exact ⟨_, known, fun j stands => assembled.label _ j rfl stands jumps⟩
  | other kind => exact absurd jumps kind

end Compilation

/-! ## Jumps -/

/-- **No jump of a compiled program leads further than behind its last instruction**, and
one leads there only if the source has no procedure and its assembly ends with a label. -/
theorem jumps_of_compile {source : String} {items : List Item} {assembly : Assembly}
    (parsed : parse source = .ok items) (noAssembly : ∀ item ∈ items, item.hasAssembly = false)
    (compiled : compile source = .ok assembly) {limits : MemoryLimits} {name : String}
    {program : Program} {notices : List Notice}
    (loaded : (Program.withLimits limits).load name assembly.text Library.empty =
      .ok (program, notices)) {instruction : Instruction} (there : instruction ∈ program.code)
    (jumps : instruction.opcode.operandKind = .code) :
    instruction.operand ≤ program.code.length ∧
      (instruction.operand = program.code.length → (∀ p, .procedure p ∉ items) ∧
        ∃ label at', assembly.lines.getLast? = some ⟨.label label, at'⟩) := by
  obtain ⟨declared, code, pool, compilation, lines⟩ :=
    compilation_of_compile parsed noAssembly compiled
  rw [text_of_lines lines] at loaded
  obtain ⟨layout, _⟩ := layout_of_load compilation.neat compilation.breaks loaded
  obtain ⟨label, inCode, target⟩ := compilation.target layout there jumps
  obtain ⟨j, stands, line, last, kind⟩ := compilation.place_of_label inCode
  have before := (List.getElem?_eq_some_iff.1 stands).1
  rw [target j stands, layout.size]
  refine ⟨address_mono (Nat.le_of_lt before), fun behind => ?_⟩
  have passive : line.isInstruction ≠ true := fun runs =>
    absurd behind (Nat.ne_of_lt (address_lt_of_last last runs before))
  refine ⟨fun p procedure => passive ?_, ?_⟩
  · obtain rfl := Option.some.inj ((compilation.getLast?_of_procedure procedure).symm.trans last)
    rfl
  · obtain ⟨other, rfl⟩ := kind.resolve_right passive
    rw [linesOf, List.getLast?_map, ← lines] at last
    obtain ⟨⟨_, at'⟩, ends, rfl⟩ := Option.map_eq_some_iff.1 last
    exact ⟨other, at', ends⟩

/-- A source without assembly text that is compiled and assembled, to a program as given. -/
def builds (source : String) (property : Program → Bool) : Bool :=
  compiles source fun _ assembly =>
    match (Program.withLimits {}).load "main.pp" assembly.text Library.empty with
    | .ok (program, _) => property program
    | .error _ => false

theorem exists_of_builds {source : String} {property : Program → Bool}
    (accepted : builds source property = true) :
    ∃ (items : List Item) (assembly : Assembly) (program : Program) (notices : List Notice),
      parse source = .ok items ∧ (∀ item ∈ items, item.hasAssembly = false) ∧
      compile source = .ok assembly ∧
      (Program.withLimits {}).load "main.pp" assembly.text Library.empty = .ok (program, notices) ∧
      property program = true := by
  obtain ⟨items, assembly, parsed, plain, compiled, holds⟩ := exists_of_compiles accepted
  split at holds
  · rename_i program notices loaded
    exact ⟨items, assembly, program, notices, parsed, plain, compiled, loaded, holds⟩
  · cases holds

/-- A loop that ends its source. -/
def waiting : String := "var x\nwhile x == 0:\n  pass\n"

/-- The loop is left for the place behind the last instruction. -/
theorem jump_behind_code : ∃ (items : List Item) (assembly : Assembly) (program : Program)
    (notices : List Notice),
    parse waiting = .ok items ∧ (∀ item ∈ items, item.hasAssembly = false) ∧
    compile waiting = .ok assembly ∧
    (Program.withLimits {}).load "main.pp" assembly.text Library.empty = .ok (program, notices) ∧
    ∃ instruction ∈ program.code, instruction.opcode.operandKind = .code ∧
      ¬instruction.operand < program.code.length := by
  have accepted : builds waiting (fun program => program.code.any fun i =>
      i.opcode.operandKind == .code && decide (¬i.operand < program.code.length)) = true := by
    decide +kernel
  obtain ⟨items, assembly, program, notices, parsed, plain, compiled, loaded, holds⟩ :=
    exists_of_builds accepted
  obtain ⟨instruction, there, is⟩ := List.any_eq_true.1 holds
  obtain ⟨jumps, behind⟩ := Bool.and_eq_true_iff.1 is
  exact ⟨items, assembly, program, notices, parsed, plain, compiled, loaded, instruction, there,
    by simpa using jumps, of_decide_eq_true behind⟩

/-- The same loop, and a procedure behind it. -/
def resetting : String := "var x\ndef reset():\n  x = 0\nwhile x == 0:\n  reset()\n"

theorem jumps_of_compile_resetting : ∃ (items : List Item) (assembly : Assembly)
    (program : Program) (notices : List Notice) (instruction : Instruction),
    parse resetting = .ok items ∧ (∀ item ∈ items, item.hasAssembly = false) ∧
    compile resetting = .ok assembly ∧
    (Program.withLimits {}).load "main.pp" assembly.text Library.empty = .ok (program, notices) ∧
    instruction ∈ program.code ∧ instruction.opcode.operandKind = .code ∧
    (instruction.operand ≤ program.code.length ∧
      (instruction.operand = program.code.length → (∀ p, .procedure p ∉ items) ∧
        ∃ label at', assembly.lines.getLast? = some ⟨.label label, at'⟩)) := by
  have accepted : builds resetting (fun program => program.code.any fun i =>
      i.opcode.operandKind == .code) = true := by
    decide +kernel
  obtain ⟨items, assembly, program, notices, parsed, plain, compiled, loaded, holds⟩ :=
    exists_of_builds accepted
  obtain ⟨instruction, there, is⟩ := List.any_eq_true.1 holds
  have jumps : instruction.opcode.operandKind = .code := by simpa using is
  exact ⟨items, assembly, program, notices, instruction, parsed, plain, compiled, loaded, there,
    jumps, jumps_of_compile parsed plain compiled loaded there jumps⟩

end PulseSequencer.Ppp
