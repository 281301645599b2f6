import PulseSequencer.Proofs.Ppp.CompiledLines
import PulseSequencer.Proofs.Ppp.Readings
import PulseSequencer.Proofs.Program.LineByLine

/-
# PulseSequencer.Proofs.Ppp.Assembling -- lines that the assembler takes

Printed lines are assembled if their names are identifiers that nothing else has
(`DistinctNames`), their declarations can be read one after the other, what their code
names is there, and the program has room (`Room`): `load_of_readings`.
-/

namespace PulseSequencer.Ppp

open PulseSequencer.Assembler
open PulseSequencer.Text (withoutReturn)

set_option autoImplicit false

/-! ## Sources -/

/-- A printed line inserts no file. -/
theorem inserted?_printed {line : AssemblyLine} (neat : line.Neat) :
    SourceSet.inserted? (withoutReturn line.text.toList) = none := by
  have none' : ∀ {code : List Char}, Text.after? ['i', 'n', 's', 'e', 'r', 't', ' '] code = none →
      Text.trim (SourceSet.withoutComment (withoutReturn line.text.toList)) = code →
        SourceSet.inserted? (withoutReturn line.text.toList) = none := by
    intro code none' same
    rw [SourceSet.inserted?, same, none']
    rfl
  cases line with
  | cell name declared =>
      rw [cell_toList] at none' ⊢
      exact none' rfl (code_of_declaration _ (by decide) neat)
  | constant name value =>
      rw [constant_toList] at none' ⊢
      exact none' rfl (code_of_declaration _ (by decide) neat)
  | label name =>
      rw [label_toList] at none' ⊢
      refine none' (after?_none (c := ' ') (by decide) ?_) (code_of_label neat)
      simp [IsName.not_mem (d := ' ') neat (by decide)]
  | instruction op operands =>
      rw [instruction_toList] at none' ⊢
      exact none' (after?_mnemonic (by decide)) (code_of_instruction op neat)
  | verbatim text => exact absurd neat not_false

/-- A text none of whose lines inserts a file is added as it is. -/
theorem splice_ok {library : Library} {depth : Nat} {opened : List String} {name text : String}
    (s : SourceSet) (plain : ∀ chars ∈ Text.lines text.toList, SourceSet.inserted? chars = none) :
    ∃ t, SourceSet.splice library (depth + 1) opened name text s = .ok t ∧
      t.lines.toList.map (fun line => line.text.toList) =
        s.lines.toList.map (fun line => line.text.toList) ++ Text.lines text.toList := by
  have entries : ∀ entry ∈ SourceSet.numbered text, SourceSet.inserted? entry.2 = none := by
    intro entry there
    obtain ⟨pair, within, rfl⟩ := List.mem_map.1 there
    exact plain pair.1 (List.fst_mem_of_mem_zipIdx within)
  rw [SourceSet.splice, ← SourceSet.lines_addFile s name text, ← SourceSet.chars_numbered]
  generalize s.addFile name text = s
  generalize SourceSet.numbered text = all at entries
  induction all generalizing s with
  | nil => exact ⟨s, rfl, by simp⟩
  | cons entry rest ih =>
      obtain ⟨number, chars⟩ := entry
      obtain ⟨here, others⟩ := List.forall_mem_cons.1 entries
      obtain ⟨t, added, texts⟩ := ih { s with
        lines := s.lines.push ⟨name, number, String.ofList chars⟩ } others
      refine ⟨t, ?_, by simp [texts]⟩
      rw [List.foldlM_cons]
      dsimp only at here ⊢
      rw [here]
      exact added

/-- **A text that inserts nothing consists of its lines.** -/
theorem expand_plain {text : String} (library : Library) (name : String)
    (plain : ∀ chars ∈ Text.lines text.toList, SourceSet.inserted? chars = none) :
    ∃ sources, SourceSet.expand name text library = .ok sources ∧
      sources.lines.toList.map (fun line => line.text.toList) = Text.lines text.toList :=
  splice_ok {} plain

/-- **Printed lines are the lines of their text.** -/
theorem expand_printed {lines : List AssemblyLine} (neat : ∀ line ∈ lines, line.Neat)
    (one : ∀ line ∈ lines, '\n' ∉ line.text.toList) (name : String) :
    ∃ sources, SourceSet.expand name (String.join (lines.map fun line => line.text ++ "\n"))
        Library.empty = .ok sources ∧
      sources.lines.toList.map (fun line => line.text.toList) =
        lines.map fun line => withoutReturn line.text.toList := by
  have printed : Text.lines (String.join (lines.map fun line => line.text ++ "\n")).toList =
      lines.map fun line => withoutReturn line.text.toList := by
    rw [printed_toList, Text.lines_printed (List.forall_mem_map.2 one), List.map_map]
    rfl
  have plain : ∀ chars ∈ Text.lines
      (String.join (lines.map fun line => line.text ++ "\n")).toList,
      SourceSet.inserted? chars = none := by
    rw [printed]
    exact List.forall_mem_map.2 fun line there => inserted?_printed (neat line there)
  obtain ⟨sources, expanded, texts⟩ := expand_plain Library.empty name plain
  exact ⟨sources, expanded, texts.trans printed⟩

/-! ## The first pass -/

/-- Names that are identifiers and differ. -/
structure DistinctNames (lines : List AssemblyLine) : Prop where
  cells : (cellNames lines).Nodup
  cell : ∀ name ∈ cellNames lines, isIdentifier name.toList = true
  labels : (labelNames lines).Nodup
  label : ∀ name ∈ labelNames lines, isIdentifier name.toList = true

/-- The name of the next line is free. -/
theorem DistinctNames.admits {done rest : List AssemblyLine} {line : AssemblyLine} {d : Draft}
    (names : DistinctNames (done ++ line :: rest)) (drafted : Drafted done d) :
    Draft.Admits d line := by
  cases line with
  | cell name declared =>
      refine ⟨names.cell name (mem_cellNames.2 ⟨declared, by simp⟩), ?_⟩
      have cells := names.cells
      rw [cellNames_append] at cells
      rw [Table.contains_eq_false_iff, drafted.cells.keys]
      exact fun there => (List.nodup_append.1 cells).2.2 name there name
        (mem_cellNames.2 ⟨declared, List.mem_cons_self ..⟩) rfl
  | label name =>
      refine ⟨names.label name (mem_labelNames.2 (by simp)), ?_⟩
      have labels := names.labels
      rw [labelNames_append] at labels
      rw [Table.contains_eq_false_iff, drafted.labels.keys]
      exact fun there => (List.nodup_append.1 labels).2.2 name there name
        (mem_labelNames.2 (List.mem_cons_self ..)) rfl
  | constant _ _ => trivial
  | instruction _ _ => trivial
  | verbatim _ => trivial

/-- **Lines that can be read pass.** -/
theorem pass_of_readings (done : List AssemblyLine) {lines : List AssemblyLine}
    {sources : List SourceLine} {r r' : Readings} {d : Draft} {index : Nat}
    (proper : ∀ line ∈ lines, line.Proper) (names : DistinctNames (done ++ lines))
    (drafted : Drafted done d) (agrees : r.Agrees d)
    (read : lines.foldlM Readings.line r = some r')
    (texts : sources.map (fun line => line.text.toList) =
      lines.map fun line => withoutReturn line.text.toList) :
    ∃ d', (sources.zipIdx index).foldlM (fun d (line, index) =>
        (d.readLine index line.text.toList).mapError (lineError line)) d = .ok d' ∧
      Drafted (done ++ lines) d' := by
  induction lines generalizing done sources r d index with
  | nil =>
      obtain rfl : sources = [] := List.map_eq_nil_iff.1 texts
      exact ⟨d, rfl, (List.append_nil done).symm ▸ drafted⟩
  | cons line rest ih =>
      cases sources with
      | nil => cases texts
      | cons source others =>
          simp only [List.map_cons, List.cons.injEq] at texts
          obtain ⟨text, texts⟩ := texts
          obtain ⟨here, proper'⟩ := List.forall_mem_cons.1 proper
          rw [List.foldlM_cons] at read
          obtain ⟨middle, first, onward⟩ := Option.bind_eq_some_iff.1 read
          obtain ⟨e, passed, agrees'⟩ :=
            readLine_of_line here agrees (names.admits drafted) first index
          have drafted' := drafted.step (readLine_printed here.neat passed)
          have names' : DistinctNames (done ++ [line] ++ rest) := by
            rwa [List.append_assoc]
          obtain ⟨d', ended, all⟩ := ih _ proper' names' drafted' agrees' onward texts
          refine ⟨d', ?_, by rwa [List.append_assoc] at all⟩
          rw [List.zipIdx_cons, List.foldlM_cons]
          refine bind_eq_ok.2 ⟨e, ?_, ended⟩
          dsimp only
          rw [text, passed]
          rfl

/-! ## The second pass -/

/-- The cell that an instruction names behind a channel. -/
def AssemblyLine.channelCell? : AssemblyLine → Option String
  | .instruction _ [_, name] => some name
  | _ => none

/-- What a program of the given lines takes: words of code and data, addresses that fit an
operand, and those used with channels in its lower half. -/
structure Room (limits : MemoryLimits) (lines : List AssemblyLine) : Prop where
  code : lines.countP AssemblyLine.isInstruction ≤ limits.code
  data : (cellNames lines).length ≤ limits.data
  jumps : lines.countP AssemblyLine.isInstruction < Instruction.operandLimit
  cells : (cellNames lines).length * Variable.wordBytes ≤ Instruction.operandLimit
  channels : ∀ cell ∈ lines.filterMap AssemblyLine.channelCell?,
    (cellNames lines).idxOf cell * Variable.wordBytes ≤ 0xfff

instance (limits : MemoryLimits) (lines : List AssemblyLine) : Decidable (Room limits lines) :=
  decidable_of_iff
    (lines.countP AssemblyLine.isInstruction ≤ limits.code ∧
      (cellNames lines).length ≤ limits.data ∧
      lines.countP AssemblyLine.isInstruction < Instruction.operandLimit ∧
      (cellNames lines).length * Variable.wordBytes ≤ Instruction.operandLimit ∧
      ∀ cell ∈ lines.filterMap AssemblyLine.channelCell?,
        (cellNames lines).idxOf cell * Variable.wordBytes ≤ 0xfff)
    ⟨fun ⟨code, data, jumps, cells, channels⟩ => ⟨code, data, jumps, cells, channels⟩,
      fun room => ⟨room.code, room.data, room.jumps, room.cells, room.channels⟩⟩

section Resolving

variable {limits : MemoryLimits} {lines : List AssemblyLine} {d : Draft} {kind : OperandKind}

theorem resolveName_number (d : Draft) (kind : OperandKind) {n : Nat}
    (fits : n < Instruction.operandLimit) : d.resolveName kind (toString n).toList = .ok n := by
  have digits : (toString n).toList = Nat.toDigits 10 n := Nat.toList_repr
  rw [Draft.resolveName, digits, literal?_toDigits (Nat.lt_trans fits (by decide))]

/-- A cell is found at its place. -/
theorem resolveName_cell (drafted : Drafted lines d) {name : String} (data : kind ≠ .code)
    (known : name ∈ cellNames lines) : d.resolveName kind name.toList =
      .ok ((cellNames lines).idxOf name * Variable.wordBytes) := by
  obtain ⟨texts, there⟩ := mem_cellNames.1 known
  obtain ⟨identifier, _⟩ := drafted.cells.declared name texts there
  obtain ⟨v, found, address⟩ := drafted.cells.slots _ name (List.getElem?_idxOf known)
  rw [Draft.resolveName, literal?_identifier identifier]
  simp only [String.ofList_toList, found, Option.map_some, if_neg data, Option.some_or, address]

/-- A label is found at the address behind it. -/
theorem resolveName_label (drafted : Drafted lines d) {name : String}
    (known : name ∈ labelNames lines) :
    ∃ j, d.resolveName .code name.toList = .ok (address lines j) := by
  obtain ⟨j, there⟩ := List.mem_iff_getElem?.1 (mem_labelNames.1 known)
  obtain ⟨identifier, found⟩ := drafted.labels.targets j name there
  refine ⟨j, ?_⟩
  rw [Draft.resolveName, literal?_identifier identifier]
  simp only [String.ofList_toList, found, if_true, Option.some_or]

/-- An operand of 24 bits is taken. -/
theorem limited_of_lt {operand : Nat} (below : operand < Instruction.operandLimit) :
    (do if operand ≥ Instruction.operandLimit then throw (LineFault.operandRange operand)
        return operand : Pass Nat) = .ok operand := by
  rw [if_neg (Nat.not_le.2 below)]
  rfl

/-- **The operands of code resolve**, if there is room for them. -/
theorem resolve_wired (drafted : Drafted lines d) (room : Room limits lines) {op : Opcode}
    {operands : List String} (there : .instruction op operands ∈ lines)
    (wired : (AssemblyLine.instruction op operands).Wired (CellOf lines) (· ∈ labelNames lines))
    (line : Nat) : ∃ operand, d.resolve ⟨op, operands.map String.toList, line⟩ = .ok operand := by
  have single : ∀ {name : String} {operand : Nat},
      d.resolveName op.operandKind name.toList = .ok operand → operand < Instruction.operandLimit →
        ∃ operand, d.resolve ⟨op, [name].map String.toList, line⟩ = .ok operand :=
    fun found below => ⟨_, bind_eq_ok.2 ⟨_, found, limited_of_lt below⟩⟩
  have cell : ∀ {name : String}, CellOf lines name →
      (cellNames lines).idxOf name * Variable.wordBytes < Instruction.operandLimit := fun known =>
    Nat.lt_of_lt_of_le (Nat.mul_lt_mul_of_pos_right (List.idxOf_lt_length_of_mem known.2)
      (by decide)) room.cells
  have number : ∀ {n : Nat}, n ≤ 0xff → n < Instruction.operandLimit := fun small =>
    Nat.lt_of_le_of_lt small (by decide)
  cases wired with
  | jump kind known =>
      obtain ⟨j, found⟩ := resolveName_label drafted known
      refine single (kind ▸ found) (Nat.lt_of_le_of_lt ?_ room.jumps)
      exact (List.take_sublist j lines).countP_le
  | other kind wired =>
      cases wired with
      | none => exact ⟨0, bind_eq_ok.2 ⟨0, rfl, limited_of_lt (by decide)⟩⟩
      | cell known => exact single (resolveName_cell drafted kind known.2) (cell known)
      | number small => exact single (resolveName_number d _ (number small)) (number small)
      | @channel n name small known =>
          have near := room.channels name (List.mem_filterMap.2 ⟨_, there, rfl⟩)
          refine ⟨n * 4096 + (cellNames lines).idxOf name * Variable.wordBytes,
            bind_eq_ok.2 ⟨n, resolveName_number d _ (number small), ?_⟩⟩
          dsimp only
          rw [if_neg (Nat.not_lt.2 small)]
          refine bind_eq_ok.2 ⟨_, resolveName_cell drafted kind known.2, ?_⟩
          rw [if_neg (Nat.not_lt.2 near)]
          exact limited_of_lt (by rw [Instruction.operandLimit]; omega)

/-- **All statements become instructions.** -/
theorem instructions_of_wired (drafted : Drafted lines d) (room : Room limits lines)
    (wired : ∀ op operands, .instruction op operands ∈ lines →
      (AssemblyLine.instruction op operands).Wired (CellOf lines) (· ∈ labelNames lines))
    (sources : Array SourceLine) :
    ∃ code, d.statements.toList.mapM (d.instruction sources) = .ok code := by
  refine exists_mapM fun s there => ?_
  have stated : (s.opcode, s.operands) ∈
      d.statements.toList.map fun s => (s.opcode, s.operands) := List.mem_map_of_mem there
  rw [drafted.statements] at stated
  obtain ⟨line, inLines, same⟩ := List.mem_filterMap.1 stated
  cases line with
  | instruction op operands =>
      obtain ⟨is, texts⟩ := Prod.mk.inj (Option.some.inj same)
      obtain ⟨operand, found⟩ :=
        resolve_wired drafted room inLines (wired op operands inLines) s.line
      obtain ⟨_, _, _⟩ := s
      obtain rfl := is
      obtain rfl := texts
      exact ⟨_, by rw [Draft.instruction, found]; rfl⟩
  | _ => cases same

end Resolving

/-! ## Both passes -/

section Load

variable {limits : MemoryLimits} {lines : List AssemblyLine}
  (proper : ∀ line ∈ lines, line.Proper)
include proper

/-- **Lines that can be read are assembled.** -/
theorem load_of_readings (names : DistinctNames lines)
    (wired : ∀ op operands, .instruction op operands ∈ lines →
      (AssemblyLine.instruction op operands).Wired (CellOf lines) (· ∈ labelNames lines))
    (room : Room limits lines) (read : (lines.foldlM Readings.line {}).isSome = true)
    (name : String) : ∃ result, (Program.withLimits limits).load name
      (String.join (lines.map fun line => line.text ++ "\n")) Library.empty = .ok result := by
  obtain ⟨r, read⟩ := Option.isSome_iff_exists.1 read
  obtain ⟨sources, expanded, texts⟩ := expand_printed (fun line there => (proper line there).neat)
    (one_line_of_lines proper read) name
  obtain ⟨d, passed, drafted⟩ :=
    pass_of_readings [] proper names drafted_nil agrees_empty read texts
  rw [List.nil_append] at drafted
  have statements : d.statements.size = lines.countP AssemblyLine.isInstruction := by
    have count := address_eq_length lines lines.length
    rw [address, List.take_length, ← drafted.statements, List.length_map,
      Array.length_toList] at count
    exact count.symm
  have vars : d.vars.size = (cellNames lines).length := by
    rw [← drafted.cells.keys, Table.keys, List.length_map]
    rfl
  obtain ⟨code, assembled⟩ := instructions_of_wired drafted room wired sources.lines
  obtain ⟨p, notices, ran, _⟩ := run_of_firstPass passed (statements ▸ room.code)
    (vars ▸ room.data) assembled
  rw [Program.load, expanded]
  exact ⟨(p, notices), ran⟩

/-- **Lines that are assembled can be read**, and their names differ. -/
theorem readings_of_load {name : String} {result : Program × List Notice}
    (breaks : ∀ line ∈ lines, '\n' ∈ line.text.toList → line.Breaks)
    (loaded : (Program.withLimits limits).load name
      (String.join (lines.map fun line => line.text ++ "\n")) Library.empty = .ok result) :
    DistinctNames lines ∧ (lines.foldlM Readings.line {}).isSome = true := by
  obtain ⟨one, d, _, reads, _⟩ :=
    readsAll_of_load (fun line there => (proper line there).neat) breaks loaded
  have drafted := drafted_of_readsAll reads
  obtain ⟨r, read⟩ := readings_of_readsAll proper one agrees_empty reads
  refine ⟨⟨?_, fun cell there => ?_, ?_, fun label there => ?_⟩, by rw [read]; rfl⟩
  · rw [← drafted.cells.keys]
    exact d.vars.nodup
  · obtain ⟨fields, line⟩ := mem_cellNames.1 there
    exact (drafted.cells.declared cell fields line).1
  · rw [← drafted.labels.keys]
    exact d.labels.nodup
  · obtain ⟨j, line⟩ := List.mem_iff_getElem?.1 (mem_labelNames.1 there)
    exact (drafted.labels.targets j label line).1

end Load

end PulseSequencer.Ppp
