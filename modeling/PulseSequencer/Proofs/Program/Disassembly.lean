import PulseSequencer.Proofs.Ppp.Assembling
import PulseSequencer.Proofs.Ppp.Wiring

/-
# PulseSequencer.Proofs.Program.Disassembly -- images as text and back

An image is read as the code that it was made of (`disassemble_instructionBytes`).  The
text of an instruction is a line of its mnemonic and of the numbers in its operand
(`Instruction.text_eq`), so the first pass reads the texts of code for what they are
(`Assembler.firstPass_texts`), and the second gives each its operand again or refuses it,
if it has no room for a channel above a data address (`Assembler.resolve_statement`).
Hence code is assembled from its texts exactly if its operands keep to their layout:
`load_texts_iff`.
-/

namespace PulseSequencer

open PulseSequencer.Text (withoutReturn)
open PulseSequencer.Assembler (Statement Draft)

set_option autoImplicit false

/-! ## Words -/

theorem Opcode.ofCode?_code (op : Opcode) : Opcode.ofCode? op.code = some op := by
  cases op <;> decide

theorem Opcode.code_lt (op : Opcode) : op.code < 256 := by
  cases op <;> decide

namespace Instruction

variable {i : Instruction} {code : List Instruction}

theorem toNat_word (fits : i.operand < operandLimit) :
    i.word.toNat = operandLimit * i.opcode.code + i.operand := by
  have below := i.opcode.code_lt
  rw [word, UInt32.toNat_ofNat', Nat.mod_eq_of_lt fits, Nat.mul_comm]
  exact Nat.mod_eq_of_lt (by rw [operandLimit] at *; omega)

/-- **A word is read as the instruction that it was made of.** -/
theorem ofWord?_word (fits : i.operand < operandLimit) : ofWord? i.word = some i := by
  rw [ofWord?, toNat_word fits, Nat.mul_add_div (by decide), Nat.div_eq_of_lt fits, Nat.add_zero,
    Nat.mul_add_mod, Nat.mod_eq_of_lt fits, Opcode.ofCode?_code]
  rfl

theorem instructionsFrom_instructionBytes (address : Nat)
    (fits : ∀ i ∈ code, i.operand < operandLimit) :
    instructionsFrom address (instructionBytes code) = .ok code := by
  induction code generalizing address with
  | nil => rfl
  | cons i rest ih =>
      obtain ⟨here, others⟩ := List.forall_mem_cons.1 fits
      have word : UInt32.ofNat (ofLittleEndian (littleEndian 4 i.word.toNat)) = i.word := by
        rw [ofLittleEndian_littleEndian]
        exact (congrArg UInt32.ofNat (Nat.mod_eq_of_lt i.word.toNat_lt)).trans UInt32.ofNat_toNat
      rw [instructionBytes, List.flatMap_cons, ← instructionBytes]
      generalize bytes : littleEndian 4 i.word.toNat = first at word
      obtain rfl : [_, _, _, _] = first := bytes
      rw [List.cons_append, List.cons_append, List.cons_append, List.singleton_append,
        instructionsFrom, word, ofWord?_word here, ih (address + 1) others]
      rfl

/-- **An image is disassembled to the texts of its code.** -/
theorem disassemble_instructionBytes (fits : ∀ i ∈ code, i.operand < operandLimit) :
    disassemble (instructionBytes code) = .ok (code.map text) := by
  have length : (instructionBytes code).length % 4 = 0 := by
    rw [instructionBytes, List.length_flatMap]
    simp [Nat.mul_mod_left]
  rw [disassemble, if_neg (not_not_intro length), instructionsFrom_instructionBytes 0 fits]
  rfl

/-! ## Texts -/

/-- Whether an operand that is used with a channel has no more than that above a data
address. -/
def WithinLayout (i : Instruction) : Prop :=
  i.opcode.operandKind = .channelData → i.operand < 0x100000

instance (i : Instruction) : Decidable i.WithinLayout := by
  unfold WithinLayout
  infer_instance

theorem withinLayout_of_ne (other : i.opcode.operandKind ≠ .channelData) : i.WithinLayout :=
  fun is => absurd is other

/-- The numbers behind the mnemonic. -/
def numbers (i : Instruction) : List Nat :=
  match i.opcode.operandKind with
  | .none => if i.operand = 0 then [] else [i.operand]
  | .channelData => [i.operand / 4096, i.operand % 4096]
  | _ => [i.operand]

def line (i : Instruction) : Ppp.AssemblyLine :=
  .instruction i.opcode (i.numbers.map toString)

theorem text_eq (i : Instruction) : i.text = i.line.text := by
  obtain ⟨op, operand⟩ := i
  rw [text, line, numbers]
  cases op.operandKind with
  | none =>
      dsimp only
      split
      · rfl
      · simp [Ppp.AssemblyLine.text]
  | channelData => simp [Ppp.AssemblyLine.text, String.append_assoc]
  | data | code | literal => simp [Ppp.AssemblyLine.text]

theorem neat_line (i : Instruction) : i.line.Neat :=
  List.forall_mem_map.2 fun n _ => Ppp.isName_nat n

theorem text_free (i : Instruction) {mark : Char} (never : Ppp.isNamePart mark = false)
    (comma : mark ≠ ',') (space : mark ≠ ' ') : mark ∉ i.text.toList := by
  rw [text_eq]
  exact Ppp.not_mem_instruction i.opcode i.neat_line never comma space

theorem withoutReturn_text (i : Instruction) : withoutReturn i.text.toList = i.text.toList :=
  Text.withoutReturn_of_free (i.text_free (by decide) (by decide) (by decide))

theorem text_ne_nil (i : Instruction) : i.text.toList ≠ [] := by
  rw [text_eq, line, Ppp.instruction_toList]
  exact fun none' => (Ppp.mnemonic_isName i.opcode).some' (List.append_eq_nil_iff.1 none').1

/-- Joined texts are the lines of what they make. -/
theorem lines_texts (code : List Instruction) :
    Text.lines ("\n".intercalate (code.map text)).toList = code.map fun i => i.text.toList := by
  rw [String.toList_intercalate, List.map_map]
  refine Text.lines_intercalate (List.forall_mem_map.2 fun i _ => i.text_ne_nil)
    (List.forall_mem_map.2 fun i _ => i.text_free (by decide) (by decide) (by decide))
    (List.forall_mem_map.2 fun i _ => i.withoutReturn_text)

/-- What the first pass makes of the text of an instruction. -/
def statement (i : Instruction) (line : Nat) : Statement :=
  ⟨i.opcode, (i.numbers.map toString).map String.toList, line⟩

end Instruction

namespace Assembler

open Instruction (operandLimit)

variable {i : Instruction} {code code' : List Instruction}

/-! ## Passes -/

theorem readLine_text (d : Draft) (index : Nat) (i : Instruction) :
    d.readLine index i.text.toList =
      .ok { d with statements := d.statements.push (i.statement index) } := by
  rw [← i.withoutReturn_text, i.text_eq]
  exact Ppp.readLine_instruction i.opcode i.neat_line

/-- **The first pass reads texts of code as its statements.** -/
theorem firstPass_texts (d : Draft) {sources : List SourceLine} {index : Nat}
    (texts : sources.map (fun line => line.text.toList) = code.map fun i => i.text.toList) :
    (sources.zipIdx index).foldlM (fun d (line, index) =>
        (d.readLine index line.text.toList).mapError (lineError line)) d =
      .ok { d with statements := d.statements ++
        ((code.zipIdx index).map fun entry => entry.1.statement entry.2).toArray } := by
  induction code generalizing sources d index with
  | nil =>
      obtain rfl : sources = [] := List.map_eq_nil_iff.1 texts
      simp
      rfl
  | cons i rest ih =>
      cases sources with
      | nil => cases texts
      | cons source others =>
          obtain ⟨text, texts⟩ := List.cons.inj texts
          rw [List.zipIdx_cons, List.foldlM_cons]
          dsimp only at text ⊢
          rw [text, readLine_text]
          refine (ih _ texts).trans ?_
          simp

/-- **An operand is what its numbers make**, if there is room for the channel. -/
theorem resolve_statement (d : Draft) (fits : i.operand < operandLimit) (index : Nat) :
    d.resolve (i.statement index) =
      if i.WithinLayout then .ok i.operand else .error (.channelRange (i.operand / 4096)) := by
  have one : i.opcode.operandKind ≠ .channelData → i.numbers = [i.operand] →
      d.resolve (i.statement index) = .ok i.operand := by
    intro kind numbers
    rw [Instruction.statement, numbers, Draft.resolve]
    exact bind_eq_ok.2 ⟨_, Ppp.resolveName_number d _ fits, Ppp.limited_of_lt fits⟩
  cases kind : i.opcode.operandKind with
  | none =>
      rw [if_pos (Instruction.withinLayout_of_ne (by simp [kind]))]
      by_cases zero : i.operand = 0
      · have numbers : i.numbers = [] := by simp [Instruction.numbers, kind, zero]
        rw [Instruction.statement, numbers, zero]
        rfl
      · exact one (by simp [kind]) (by simp [Instruction.numbers, kind, zero])
  | data | code | literal =>
      rw [if_pos (Instruction.withinLayout_of_ne (by simp [kind]))]
      exact one (by simp [kind]) (by simp [Instruction.numbers, kind])
  | channelData =>
      have channel := Ppp.resolveName_number d i.opcode.operandKind
        (Nat.lt_of_le_of_lt (Nat.div_le_self i.operand 4096) fits)
      have data := Ppp.resolveName_number d i.opcode.operandKind
        (Nat.lt_of_le_of_lt (Nat.mod_le i.operand 4096) fits)
      have within : i.WithinLayout ↔ ¬i.operand / 4096 > 0xff := by
        simp only [Instruction.WithinLayout, kind, true_implies]
        omega
      have numbers : i.numbers = [i.operand / 4096, i.operand % 4096] := by
        simp [Instruction.numbers, kind]
      rw [Instruction.statement, numbers, Draft.resolve]
      by_cases large : i.operand / 4096 > 0xff
      · rw [if_neg fun inside => within.1 inside large]
        simp only [List.map_cons, List.map_nil, channel]
        exact if_pos large
      · rw [if_pos (within.2 large)]
        refine bind_eq_ok.2 ⟨_, channel, ?_⟩
        dsimp only
        rw [if_neg large]
        refine bind_eq_ok.2 ⟨_, data, ?_⟩
        rw [if_neg (Nat.not_lt.2 (Nat.le_of_lt_succ (Nat.mod_lt _ (by decide)))),
          Nat.div_add_mod']
        exact Ppp.limited_of_lt fits

/-- **The second pass makes the code again** that keeps to the layout, and no other code. -/
theorem mapM_statements (d : Draft) (sources : Array SourceLine) {index : Nat}
    (fits : ∀ i ∈ code, i.operand < operandLimit) :
    ((code.zipIdx index).map fun entry => entry.1.statement entry.2).mapM (d.instruction sources) =
      .ok code' ↔ (∀ i ∈ code, i.WithinLayout) ∧ code' = code := by
  induction code generalizing index code' with
  | nil => simp [eq_comm, pure, Except.pure]
  | cons i rest ih =>
      obtain ⟨here, others⟩ := List.forall_mem_cons.1 fits
      have resolved := resolve_statement d here index
      rw [List.zipIdx_cons, List.map_cons, List.mapM_cons, List.forall_mem_cons, Draft.instruction,
        resolved]
      by_cases within : i.WithinLayout
      · rw [if_pos within]
        constructor
        · intro made
          obtain ⟨_, first, onward⟩ := bind_eq_ok.1 made
          obtain rfl := Except.ok.inj first
          obtain ⟨_, onward, ended⟩ := bind_eq_ok.1 onward
          obtain ⟨all, same⟩ := (ih others).1 onward
          exact ⟨⟨within, all⟩, same ▸ (Except.ok.inj ended).symm⟩
        · rintro ⟨⟨_, all⟩, rfl⟩
          exact bind_eq_ok.2 ⟨i, rfl, bind_eq_ok.2 ⟨rest, (ih others).2 ⟨all, rfl⟩, rfl⟩⟩
      · rw [if_neg within]
        constructor
        · intro made
          cases made
        · rintro ⟨⟨here, _⟩, _⟩
          exact absurd here within

end Assembler

/-! ## Images -/

section Loading

open Assembler (firstPass_texts mapM_statements drafted_of_run run_of_firstPass)

variable {p : Program} {code : List Instruction}

/-- **The texts of code are assembled to that code exactly if it keeps to the layout.** -/
theorem Program.load_texts_iff (room : code.length ≤ p.limits.code)
    (fits : ∀ i ∈ code, i.operand < Instruction.operandLimit) (name : String) (library : Library) :
    (∃ q notices, p.load name ("\n".intercalate (code.map Instruction.text)) library =
        .ok (q, notices) ∧ q.code = code) ↔ ∀ i ∈ code, i.WithinLayout := by
  have plain : ∀ chars ∈ Text.lines ("\n".intercalate (code.map Instruction.text)).toList,
      SourceSet.inserted? chars = none := by
    rw [Instruction.lines_texts]
    refine List.forall_mem_map.2 fun i _ => ?_
    rw [← i.withoutReturn_text, i.text_eq]
    exact Ppp.inserted?_printed i.neat_line
  obtain ⟨sources, expanded, texts⟩ := Ppp.expand_plain library name plain
  have passed : Assembler.firstPass sources.lines.toList = _ :=
    firstPass_texts {} (texts.trans (Instruction.lines_texts code))
  have ran : p.load name ("\n".intercalate (code.map Instruction.text)) library =
      Assembler.run p.limits sources := by
    rw [load, expanded]
    rfl
  rw [ran]
  constructor
  · rintro ⟨q, notices, assembled, rfl⟩
    obtain ⟨d, passed', _, assembled, _⟩ := drafted_of_run assembled
    obtain rfl := Except.ok.inj (passed.symm.trans passed')
    rw [Array.empty_append, List.toList_toArray] at assembled
    exact ((mapM_statements _ _ fits).1 assembled).1
  · intro within
    refine run_of_firstPass passed ?_ (Nat.zero_le _) ?_
    · simpa using room
    · rw [Array.empty_append, List.toList_toArray]
      exact (mapM_statements _ _ fits).2 ⟨within, rfl⟩

/-- **Disassembly reassembles**: the texts of code that fits and keeps to the layout are
assembled to that code, and its image is disassembled to those texts. -/
theorem Program.load_texts (p : Program) (code : List Instruction)
    (room : code.length ≤ p.limits.code) (fits : ∀ i ∈ code, i.operand < Instruction.operandLimit)
    (within : ∀ i ∈ code, i.WithinLayout) (name : String) (library : Library) :
    ∃ q notices, p.load name ("\n".intercalate (code.map Instruction.text)) library =
        .ok (q, notices) ∧
      q.code = code ∧ disassemble q.codeImage = .ok (code.map Instruction.text) := by
  obtain ⟨q, notices, loaded, same⟩ := (load_texts_iff room fits name library).2 within
  refine ⟨q, notices, loaded, same, ?_⟩
  rw [Program.codeImage, same]
  exact Instruction.disassemble_instructionBytes fits

/-- Operands of every kind, the largest among them. -/
def operandKinds : List Instruction :=
  [⟨.nop, 0⟩, ⟨.nop, 0xffffff⟩, ⟨.ldwr, 8⟩, ⟨.jmp, 0xffffff⟩, ⟨.ddsfrq, 0⟩, ⟨.ddsfrq, 0xfffff⟩,
    ⟨.ddschn, 0xffffff⟩, ⟨.finish, 0⟩]

theorem Program.load_texts_operandKinds : ∃ q notices, (Program.withLimits {}).load "main.pp"
        ("\n".intercalate ["NOP", "NOP 16777215", "LDWR 8", "JMP 16777215", "DDSFRQ 0, 0",
          "DDSFRQ 255, 4095", "DDSCHN 16777215", "END"]) Library.empty = .ok (q, notices) ∧
      q.code = operandKinds ∧ disassemble q.codeImage = .ok (operandKinds.map Instruction.text) :=
  load_texts (Program.withLimits {}) operandKinds (by decide) (by decide) (by decide) "main.pp"
    Library.empty

end Loading

end PulseSequencer
