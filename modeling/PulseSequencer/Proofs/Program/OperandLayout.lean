import PulseSequencer.Proofs.Program.Disassembly

/-
# PulseSequencer.Proofs.Program.OperandLayout -- which operands keep to their layout

The assembler checks a channel and a data address that are written apart, and not a single
operand that stands for both.  So an assembled instruction has no more than a channel above
a data address unless its line has one operand, and this stands for a larger number
(`Program.Oversized`): `withinLayout_iff_of_instruction`.  The image of a program without such
lines can be disassembled and assembled again, and that of no other: `reassembles_iff_of_load`.
-/

namespace PulseSequencer

open PulseSequencer.Assembler

set_option autoImplicit false

namespace Assembler

variable {d : Draft} {p : Program} {kind : OperandKind} {text : List Char} {n : Nat}

/-! ## One statement -/

/-- A text is resolved to what it stands for. -/
theorem resolveName_of_denotes (tables : d.Tables p) (denotes : p.Denotes kind text n) :
    d.resolveName kind text = .ok n := by
  obtain ⟨constants, vars, labels⟩ := tables
  rw [Draft.resolveName]
  cases denotes with
  | literal read => rw [read]
  | labelOfJump noLiteral jump label =>
      rw [labels] at label
      simp [noLiteral, jump, label]
  | variableOfJump noLiteral jump noLabel cell =>
      rw [labels] at noLabel
      rw [vars] at cell
      simp [noLiteral, jump, noLabel, cell]
  | variableOfOther noLiteral other cell =>
      rw [vars] at cell
      simp [noLiteral, other, cell]
  | labelOfOther noLiteral other noCell label =>
      rw [vars] at noCell
      rw [labels] at label
      simp [noLiteral, other, noCell, label]
  | constant noLiteral noLabel noCell constant whole =>
      rw [labels] at noLabel
      rw [vars] at noCell
      rw [constants] at constant
      simp [noLiteral, noLabel, noCell, Draft.constantOperand?, constant, whole]

/-- **An instruction keeps to its layout** unless its single operand stands for a larger
number. -/
theorem withinLayout_iff_of_instruction {lines : Array SourceLine} {s : Statement}
    {i : Instruction} (tables : d.Tables p) (made : d.instruction lines s = .ok i) :
    i.WithinLayout ↔ ¬∃ operand n, s.operands = [operand] ∧
      s.opcode.operandKind = .channelData ∧ p.Denotes .channelData operand n ∧ 0x100000 ≤ n := by
  obtain ⟨same, resolved⟩ := resolve_of_instruction made
  have makes := operand_of_resolve tables resolved
  rw [Instruction.WithinLayout, same]
  generalize i.operand = n at makes ⊢
  generalize s.opcode.operandKind = kind at makes ⊢
  generalize s.operands = operands at makes ⊢
  cases makes with
  | none => simp
  | @one text _ denotes =>
      constructor
      · rintro within ⟨_, m, ⟨⟩, rfl, denotes', large⟩
        have same := (resolveName_of_denotes tables denotes').symm.trans
          (resolveName_of_denotes tables denotes)
        obtain rfl := Except.ok.inj same
        exact Nat.not_lt.2 large (within rfl)
      · rintro fits rfl
        exact Nat.lt_of_not_le fun large => fits ⟨text, n, rfl, rfl, denotes, large⟩
  | @two first second channel data _ _ channel_le data_le =>
      have below : data < 2 ^ 12 := by omega
      have small : channel <<< 12 ||| data < 0x100000 := by
        rw [← Nat.shiftLeft_add_eq_or_of_lt below, Nat.shiftLeft_eq]
        omega
      simp [small]

end Assembler

/-! ## Programs -/

namespace Program

/-- A line with a single operand that is used with channels and is too large for that. -/
def Oversized (p : Program) (line : List Char) : Prop :=
  ∃ opcode operand n, carried? line = some (opcode, [operand]) ∧
    opcode.operandKind = .channelData ∧ p.Denotes .channelData operand n ∧ 0x100000 ≤ n

/-- The lines that a program was assembled from. -/
def sourceLines (p : Program) : List (List Char) :=
  p.sources.lines.toList.map fun line => line.text.toList

section Run

variable {limits : MemoryLimits} {sources : SourceSet} {p q : Program} {notices : List Notice}

theorem oversized_iff {line : List Char} {opcode : Opcode} {operands : List (List Char)}
    (said : carried? line = some (opcode, operands)) :
    p.Oversized line ↔ ∃ operand n, operands = [operand] ∧ opcode.operandKind = .channelData ∧
      p.Denotes .channelData operand n ∧ 0x100000 ≤ n := by
  simp only [Oversized, said, Option.some.injEq, Prod.mk.injEq]
  constructor
  · rintro ⟨_, operand, n, ⟨rfl, rfl⟩, rest⟩
    exact ⟨operand, n, rfl, rest⟩
  · rintro ⟨operand, n, rfl, rest⟩
    exact ⟨opcode, operand, n, ⟨rfl, rfl⟩, rest⟩

/-- What the lines of an assembled program say, and what became of its statements. -/
theorem statements_of_run (ran : Assembler.run limits sources = .ok (p, notices)) :
    ∃ d : Draft, d.Tables p ∧ p.codeLines = (statementsOf p.sourceLines).map Statement.line ∧
      (statementsOf p.sourceLines).mapM (d.instruction sources.lines) = .ok p.code := by
  obtain ⟨d, passed, tables, assembled, codeLines, _, _, same, _⟩ := drafted_of_run ran
  have drafted := draftedFrom_of_firstPass passed
  rw [drafted.statements] at assembled codeLines
  rw [sourceLines, same]
  exact ⟨d, tables, codeLines, assembled⟩

/-- The instruction of a line. -/
theorem instruction_of_line (ran : Assembler.run limits sources = .ok (p, notices)) {j : Nat}
    {line : List Char} {opcode : Opcode} {operands : List (List Char)}
    (there : p.sourceLines[j]? = some line) (said : carried? line = some (opcode, operands)) :
    ∃ (d : Draft) (i : Instruction), d.Tables p ∧
      d.instruction sources.lines ⟨opcode, operands, j⟩ = .ok i ∧
      p.code[address p.sourceLines j]? = some i := by
  obtain ⟨d, tables, _, assembled⟩ := statements_of_run ran
  have stated : (statementsOf p.sourceLines)[address p.sourceLines j]? =
      some ⟨opcode, operands, j⟩ := getElem?_statementsOf.2 ⟨line, there, said, rfl⟩
  obtain ⟨i, made, coded⟩ := getElem?_of_mapM assembled stated
  exact ⟨d, i, tables, made, coded⟩

/-- The instruction of a line keeps to its layout unless the line is too large for it. -/
theorem withinLayout_of_line (ran : Assembler.run limits sources = .ok (p, notices)) {j : Nat}
    {line : List Char} {opcode : Opcode} {operands : List (List Char)}
    (there : p.sourceLines[j]? = some line) (said : carried? line = some (opcode, operands)) :
    ∃ i, p.code[address p.sourceLines j]? = some i ∧ (i.WithinLayout ↔ ¬p.Oversized line) := by
  obtain ⟨d, i, tables, made, coded⟩ := instruction_of_line ran there said
  refine ⟨i, coded, ?_⟩
  rw [oversized_iff said]
  exact withinLayout_iff_of_instruction tables made

/-- Every instruction comes from a line. -/
theorem line_of_instruction (ran : Assembler.run limits sources = .ok (p, notices)) {k : Nat}
    {i : Instruction} (found : p.code[k]? = some i) :
    ∃ j line carried, p.codeLines[k]? = some j ∧ p.sourceLines[j]? = some line ∧
      carried? line = some carried ∧ address p.sourceLines j = k := by
  obtain ⟨d, _, codeLines, assembled⟩ := statements_of_run ran
  obtain ⟨s, stated, _⟩ := getElem?_of_result assembled found
  obtain ⟨line, there, said, place⟩ := getElem?_statementsOf.1 stated
  exact ⟨s.line, line, _, by rw [codeLines, List.getElem?_map, stated]; rfl, there, said, place⟩

/-- **Instructions keep to their layout unless their lines are too large for it.** -/
theorem withinLayout_of_instruction (ran : Assembler.run limits sources = .ok (p, notices))
    {k : Nat} {i : Instruction} (found : p.code[k]? = some i) :
    ∃ j line, p.codeLines[k]? = some j ∧ p.sourceLines[j]? = some line ∧
      (i.WithinLayout ↔ ¬p.Oversized line) := by
  obtain ⟨j, line, _, atLine, there, said, rfl⟩ := line_of_instruction ran found
  obtain ⟨i', coded, layout⟩ := withinLayout_of_line ran there said
  obtain rfl := Option.some.inj (coded.symm.trans found)
  exact ⟨j, line, atLine, there, layout⟩

theorem withinLayout_iff_of_run (ran : Assembler.run limits sources = .ok (p, notices)) :
    (∀ i ∈ p.code, i.WithinLayout) ↔ ∀ line ∈ p.sourceLines, ¬p.Oversized line := by
  constructor
  · intro within line inSource oversized
    obtain ⟨j, there⟩ := List.mem_iff_getElem?.1 inSource
    obtain ⟨opcode, operand, _, said, _⟩ := id oversized
    obtain ⟨i, coded, layout⟩ := withinLayout_of_line ran there said
    exact layout.1 (within i (List.mem_of_getElem? coded)) oversized
  · intro fits i inCode
    obtain ⟨k, found⟩ := List.mem_iff_getElem?.1 inCode
    obtain ⟨j, line, _, there, layout⟩ := withinLayout_of_instruction ran found
    exact layout.2 (fits line (List.mem_of_getElem? there))

/-- Assembled code fits the memory and its words. -/
theorem fits_of_run (ran : Assembler.run limits sources = .ok (p, notices)) :
    p.code.length ≤ p.limits.code ∧ ∀ i ∈ p.code, i.operand < Instruction.operandLimit := by
  obtain ⟨d, _, tables, assembled, _, _, same, _, _, room⟩ := drafted_of_run ran
  refine ⟨same ▸ room, fun i inCode => ?_⟩
  obtain ⟨k, found⟩ := List.mem_iff_getElem?.1 inCode
  obtain ⟨s, _, made⟩ := getElem?_of_result assembled found
  exact (operand_and_lt_of_resolve tables (resolve_of_instruction made).2).2

end Run

/-- **Which assembled images reassemble.**  An instruction keeps to the layout of its operand
unless its line is too large for it, and the image of a program is disassembled to lines that
are assembled to the same code exactly if it has no such line. -/
theorem reassembles_iff_of_load {p q : Program} {name text : String} {library : Library}
    {notices : List Notice} (loaded : p.load name text library = .ok (q, notices)) :
    (∀ (k : Nat) (i : Instruction), q.code[k]? = some i → ∃ j line, q.codeLines[k]? = some j ∧
      q.sourceLines[j]? = some line ∧ (i.WithinLayout ↔ ¬q.Oversized line)) ∧
    ∃ lines, disassemble q.codeImage = .ok lines ∧ ∀ name' library',
      (∃ r notices', q.load name' ("\n".intercalate lines) library' = .ok (r, notices') ∧
        r.code = q.code) ↔ ∀ line ∈ q.sourceLines, ¬q.Oversized line := by
  rw [load] at loaded
  obtain ⟨sources, _, ran⟩ := bind_eq_ok.1 loaded
  obtain ⟨room, fits⟩ := fits_of_run ran
  refine ⟨fun k i found => withinLayout_of_instruction ran found, q.code.map Instruction.text,
    Instruction.disassemble_instructionBytes fits, fun name' library' => ?_⟩
  rw [load_texts_iff room fits, withinLayout_iff_of_run ran]

/-- A channel and a data address, and a single operand that is too large for them. -/
def farAmplitude : String := "const FAR 1048584\nDDSFRQ 1, 8\nDDSAMP FAR\nEND"

theorem reassembles_iff_of_load_farAmplitude :
    ∃ q notices, (withLimits {}).load "main.pp" farAmplitude Library.empty = .ok (q, notices) ∧
      q.code = [⟨.ddsfrq, 0x1008⟩, ⟨.ddsamp, 0x100008⟩, ⟨.finish, 0⟩] ∧
      (∀ (k : Nat) (i : Instruction), q.code[k]? = some i → ∃ j line, q.codeLines[k]? = some j ∧
        q.sourceLines[j]? = some line ∧ (i.WithinLayout ↔ ¬q.Oversized line)) ∧
      ∃ lines, disassemble q.codeImage = .ok lines ∧ ∀ name' library',
        (∃ r notices', q.load name' ("\n".intercalate lines) library' = .ok (r, notices') ∧
          r.code = q.code) ↔ ∀ line ∈ q.sourceLines, ¬q.Oversized line := by
  have code : ((withLimits {}).load "main.pp" farAmplitude Library.empty).toOption.map
      (fun loaded => loaded.1.code) =
        some [⟨.ddsfrq, 0x1008⟩, ⟨.ddsamp, 0x100008⟩, ⟨.finish, 0⟩] := by
    decide +kernel
  obtain ⟨⟨q, notices⟩, found, same⟩ := Option.map_eq_some_iff.1 code
  exact ⟨q, notices, ok_of_toOption found, same, reassembles_iff_of_load (ok_of_toOption found)⟩

/-- A single operand is not checked, so an image is disassembled to a line that is refused. -/
theorem not_reassembled_singleOperand :
    ∃ q notices, (withLimits {}).load "main.pp" "DDSFRQ 0x100000" Library.empty =
        .ok (q, notices) ∧
      q.code = [⟨.ddsfrq, 0x100000⟩] ∧ Opcode.ddsfrq.operandKind = .channelData ∧
      disassemble q.codeImage = .ok ["DDSFRQ 256, 0"] ∧
      ¬∃ loaded, q.load "main.pp" "DDSFRQ 256, 0" Library.empty = .ok loaded := by
  have observed : ((withLimits {}).load "main.pp" "DDSFRQ 0x100000" Library.empty).toOption.map
      (fun loaded => (loaded.1.code, (disassemble loaded.1.codeImage).toOption,
        (loaded.1.load "main.pp" "DDSFRQ 256, 0" Library.empty).isOk)) =
        some ([⟨.ddsfrq, 0x100000⟩], some ["DDSFRQ 256, 0"], false) := by
    decide
  obtain ⟨⟨q, notices⟩, found, same⟩ := Option.map_eq_some_iff.1 observed
  obtain ⟨code, rest⟩ := Prod.mk.inj same
  obtain ⟨lines, refused⟩ := Prod.mk.inj rest
  refine ⟨q, notices, ok_of_toOption found, code, rfl, ok_of_toOption lines, ?_⟩
  rintro ⟨loaded, again⟩
  rw [again] at refused
  cases refused

end Program

end PulseSequencer
