import PulseSequencer.Program.Assembler
import PulseSequencer.Proofs.Except
import PulseSequencer.Proofs.Table
import Mathlib.Data.List.Basic
import Mathlib.Data.List.Induction

/-
# PulseSequencer.Proofs.Program.LineByLine -- two passes, read one line at a time

`content` tells what a line says without any of the lines around it.  An assembled
program is what its lines say one by one: instructions and variables in the order of
their lines, labels at the number of instructions before them, and operands that stand
for what is declared anywhere in the source (`lineByLine_of_run`).  The first pass keeps
`DraftedFrom`, whose step is one line.
-/

namespace PulseSequencer

set_option autoImplicit false

/-- A variable with its name in its slot of the data memory. -/
structure Variable.Placed (v : Variable) (name : String) (slot : Nat) : Prop where
  name_eq : v.name = name
  slot_eq : v.slot = slot
  address_eq : v.address = 8 * slot

namespace Assembler

/-! ## One line -/

inductive Content where
  | blank
  | constant (text : List Char)
  | variable (text : List Char) (comment : Option (List Char))
  /-- A label, or an instruction that is not empty, or both. -/
  | code (label : Option (List Char)) (statement : List Char)

/-- What a line says, whatever stands around it. -/
def content (line : List Char) : Content :=
  let (code, comment) := splitComment line
  if code = [] then .blank
  else match Text.after? ['c', 'o', 'n', 's', 't', ' '] code with
    | some text => .constant text
    | none => match Text.after? ['v', 'a', 'r', ' '] code with
      | some text => .variable text comment
      | none => match Text.splitFirst? (· = ':') code with
        | some (label, rest) => .code (some (Text.trim label)) (Text.trim rest)
        | none => .code none code

/-- The name of the variable that a line declares. -/
def declared? (line : List Char) : Option String :=
  match content line with
  | .variable text _ =>
      (Text.splitFirst? Text.isBlank (Text.trim text)).map fun (name, _) => String.ofList name
  | _ => none

/-- The label that a line defines. -/
def defined? (line : List Char) : Option String :=
  match content line with
  | .code (some label) _ => some (String.ofList label)
  | _ => none

/-- Opcode and operands of a statement. -/
def statement? (statement : List Char) : Option (Opcode × List (List Char)) :=
  let (mnemonic, operands) := (Text.splitFirst? Text.isBlank statement).getD (statement, [])
  (Opcode.ofMnemonic? (String.ofList (mnemonic.map Char.toUpper))).map fun opcode =>
    (opcode, (fields operands).filter (· ≠ []))

/-- The instruction that a line carries. -/
def carried? (line : List Char) : Option (Opcode × List (List Char)) :=
  match content line with
  | .code _ statement => if statement = [] then none else statement? statement
  | _ => none

def carries (line : List Char) : Bool := (carried? line).isSome

/-- How many instructions stand on the lines before a line. -/
def address (lines : List (List Char)) (j : Nat) : Nat := (lines.take j).countP carries

/-- What the first pass makes of a draft with what a line says. -/
def Draft.take (d : Draft) (index : Nat) : Content → Pass Draft
  | .blank => .ok d
  | .constant text => d.declareConstant text
  | .variable text comment => d.declareVariable text comment
  | .code none statement => if statement = [] then .ok d else d.addStatement index statement
  | .code (some label) statement => do
      let d ← d.defineLabel label
      if statement = [] then return d else d.addStatement index statement

theorem readLine_eq_take (d : Draft) (index : Nat) (line : List Char) :
    d.readLine index line = d.take index (content line) := by
  rw [Draft.readLine, content]
  dsimp only
  split
  · rfl
  · rename_i some'
    cases Text.after? ['c', 'o', 'n', 's', 't', ' '] (splitComment line).1 with
    | some text => rfl
    | none =>
        cases Text.after? ['v', 'a', 'r', ' '] (splitComment line).1 with
        | some text => rfl
        | none =>
            cases Text.splitFirst? (· = ':') (splitComment line).1 with
            | some pieces => rfl
            | none => exact (if_neg some').symm

section Line

variable {d d' : Draft} {index : Nat} {line text : List Char}

/-- A variable lies behind those that were declared before it. -/
theorem placed_of_readVariable {name : String} {fs : List (List Char)}
    {comment : Option (List Char)} {v : Variable} (read : d.readVariable name fs comment = .ok v) :
    Variable.Placed v name d.vars.size := by
  unfold Draft.readVariable at read
  obtain ⟨_, _, read⟩ := bind_eq_ok.1 read
  obtain ⟨_, _, read⟩ := bind_eq_ok.1 read
  obtain ⟨_, _, read⟩ := bind_eq_ok.1 read
  dsimp only at read
  split at read <;> split at read <;> cases read <;> exact ⟨rfl, rfl, Nat.mul_comm ..⟩

theorem vars_of_declareVariable {comment : Option (List Char)}
    (declared : d.declareVariable text comment = .ok d') :
    ∃ name v, (Text.splitFirst? Text.isBlank (Text.trim text)).map
        (fun (name, _) => String.ofList name) = some name ∧ name ∉ d.vars.keys ∧
      Variable.Placed v name d.vars.size ∧ d' = { d with vars := d.vars.insert name v } := by
  rw [Draft.declareVariable] at declared
  split at declared
  · cases declared
  · rename_i name fieldText cut
    dsimp only at declared
    split at declared
    · cases declared
    · split at declared
      · cases declared
      · rename_i _ absent
        obtain ⟨v, read, declared⟩ := bind_eq_ok.1 declared
        obtain rfl := Except.ok.inj declared
        exact ⟨String.ofList name, v, by rw [cut]; rfl,
          Table.contains_eq_false_iff.1 (Bool.of_not_eq_true absent), placed_of_readVariable read, rfl⟩

theorem labels_of_defineLabel {label : List Char} (defined : d.defineLabel label = .ok d') :
    String.ofList label ∉ d.labels.keys ∧
      d' = { d with labels := d.labels.insert (String.ofList label) d.statements.size } := by
  rw [Draft.defineLabel] at defined
  dsimp only at defined
  split at defined
  · cases defined
  · split at defined
    · cases defined
    · rename_i _ absent
      exact ⟨Table.contains_eq_false_iff.1 (Bool.of_not_eq_true absent), (Except.ok.inj defined).symm⟩

theorem statements_of_addStatement (added : d.addStatement index text = .ok d') :
    ∃ opcode operands, statement? text = some (opcode, operands) ∧
      d' = { d with statements := d.statements.push ⟨opcode, operands, index⟩ } := by
  rw [Draft.addStatement] at added
  rw [statement?]
  dsimp only at added ⊢
  split at added
  · cases added
  · rename_i opcode known
    exact ⟨opcode, _, by rw [known]; rfl, (Except.ok.inj added).symm⟩

/-- What a line adds to a draft. -/
structure Adds (d : Draft) (index : Nat) (line : List Char) (d' : Draft) : Prop where
  vars : declared? line = none ∧ d'.vars = d.vars ∨
    ∃ name v, declared? line = some name ∧ name ∉ d.vars.keys ∧
      Variable.Placed v name d.vars.size ∧ d'.vars = d.vars.insert name v
  labels : defined? line = none ∧ d'.labels = d.labels ∨
    ∃ name, defined? line = some name ∧ name ∉ d.labels.keys ∧
      d'.labels = d.labels.insert name d.statements.size
  statements : carried? line = none ∧ d'.statements = d.statements ∨
    ∃ opcode operands, carried? line = some (opcode, operands) ∧
      d'.statements = d.statements.push ⟨opcode, operands, index⟩

/-- **What the first pass adds is what the line says.** -/
theorem adds_of_readLine (read : d.readLine index line = .ok d') : Adds d index line d' := by
  rw [readLine_eq_take] at read
  rcases said : content line with _ | text | ⟨text, comment⟩ | ⟨_ | label, statement⟩ <;>
    rw [said, Draft.take] at read
  · obtain rfl := Except.ok.inj read
    exact ⟨.inl ⟨by rw [declared?, said], rfl⟩, .inl ⟨by rw [defined?, said], rfl⟩,
      .inl ⟨by rw [carried?, said], rfl⟩⟩
  · rw [Draft.declareConstant] at read
    split at read
    · cases read
    · obtain ⟨v, _, read⟩ := bind_eq_ok.1 read
      obtain rfl := Except.ok.inj read
      exact ⟨.inl ⟨by rw [declared?, said], rfl⟩, .inl ⟨by rw [defined?, said], rfl⟩,
        .inl ⟨by rw [carried?, said], rfl⟩⟩
  · obtain ⟨name, v, cut, absent, placed, rfl⟩ := vars_of_declareVariable read
    exact ⟨.inr ⟨name, v, by rw [declared?, said, ← cut], absent, placed, rfl⟩,
      .inl ⟨by rw [defined?, said], rfl⟩, .inl ⟨by rw [carried?, said], rfl⟩⟩
  · have noVariable : declared? line = none := by rw [declared?, said]
    have noLabel : defined? line = none := by rw [defined?, said]
    split at read
    · rename_i none'
      obtain rfl := Except.ok.inj read
      exact ⟨.inl ⟨noVariable, rfl⟩, .inl ⟨noLabel, rfl⟩,
        .inl ⟨by simp only [carried?, said, if_pos none'], rfl⟩⟩
    · rename_i some'
      obtain ⟨opcode, operands, spelled, rfl⟩ := statements_of_addStatement read
      exact ⟨.inl ⟨noVariable, rfl⟩, .inl ⟨noLabel, rfl⟩,
        .inr ⟨opcode, operands, by simp only [carried?, said, if_neg some', spelled], rfl⟩⟩
  · obtain ⟨e, defined, read⟩ := bind_eq_ok.1 read
    obtain ⟨absent, rfl⟩ := labels_of_defineLabel defined
    have noVariable : declared? line = none := by rw [declared?, said]
    have defines : defined? line = some (String.ofList label) := by rw [defined?, said]
    split at read
    · rename_i none'
      obtain rfl := Except.ok.inj read
      exact ⟨.inl ⟨noVariable, rfl⟩, .inr ⟨_, defines, absent, rfl⟩,
        .inl ⟨by simp only [carried?, said, if_pos none'], rfl⟩⟩
    · rename_i some'
      obtain ⟨opcode, operands, spelled, rfl⟩ := statements_of_addStatement read
      exact ⟨.inl ⟨noVariable, rfl⟩, .inr ⟨_, defines, absent, rfl⟩,
        .inr ⟨opcode, operands, by simp only [carried?, said, if_neg some', spelled], rfl⟩⟩

end Line

/-! ## The first pass -/

/-- The statements of lines, each with the index of its line. -/
def statementsOf (lines : List (List Char)) : List Statement :=
  lines.zipIdx.filterMap fun (line, index) =>
    (carried? line).map fun (opcode, operands) => ⟨opcode, operands, index⟩

/-- The labels of lines and their addresses. -/
def labelsOf (lines : List (List Char)) : List (String × Nat) :=
  lines.zipIdx.filterMap fun (line, index) =>
    (defined? line).map fun name => (name, address lines index)

/-- What the first pass has made of lines. -/
structure DraftedFrom (lines : List (List Char)) (d : Draft) : Prop where
  names : d.vars.keys = lines.filterMap declared?
  placed : ∀ slot entry, d.vars.entries[slot]? = some entry →
    Variable.Placed entry.2 entry.1 slot
  labels : d.labels.entries = labelsOf lines
  statements : d.statements.toList = statementsOf lines

theorem draftedFrom_nil : DraftedFrom [] {} where
  names := rfl
  placed _ _ found := by cases found
  labels := rfl
  statements := rfl

section DraftedFrom

variable {lines : List (List Char)} {line : List Char} {d d' : Draft}

theorem statementsOf_append (lines : List (List Char)) (line : List Char) :
    statementsOf (lines ++ [line]) = statementsOf lines ++
      ((carried? line).map fun (opcode, operands) =>
        ⟨opcode, operands, lines.length⟩).toList := by
  rw [statementsOf, List.zipIdx_append, List.filterMap_append, ← statementsOf]
  cases found : carried? line <;> simp [found]

/-- Lines that follow leave the addresses before them. -/
theorem address_append (more : List (List Char)) {j : Nat} (le : j ≤ lines.length) :
    address (lines ++ more) j = address lines j := by
  rw [address, List.take_append_of_le_length le, address]

theorem labelsOf_append (lines : List (List Char)) (line : List Char) :
    labelsOf (lines ++ [line]) = labelsOf lines ++
      ((defined? line).map fun name => (name, address lines lines.length)).toList := by
  have before : lines.zipIdx.filterMap (fun (entry : List Char × Nat) =>
      (defined? entry.1).map fun name => (name, address (lines ++ [line]) entry.2)) =
        labelsOf lines := by
    refine List.filterMap_congr fun entry there => ?_
    have known : entry.2 < lines.length := by
      have := (List.mem_zipIdx there).2.1
      omega
    rw [address_append [line] (Nat.le_of_lt known)]
  rw [labelsOf, List.zipIdx_append, List.filterMap_append]
  refine congrArg₂ (· ++ ·) before ?_
  cases found : defined? line <;>
    simp [found, address_append [line] (Nat.le_refl lines.length)]

theorem length_statementsOf (lines : List (List Char)) :
    (statementsOf lines).length = address lines lines.length := by
  rw [address, List.take_length]
  induction lines using List.reverseRecOn with
  | nil => rfl
  | append_singleton lines line ih =>
      rw [statementsOf_append, List.length_append, ih, List.countP_append, List.countP_singleton,
        carries]
      cases carried? line <;> rfl

/-- **The step of the first pass.** -/
theorem DraftedFrom.step (drafted : DraftedFrom lines d) (adds : Adds d lines.length line d') :
    DraftedFrom (lines ++ [line]) d' := by
  have size : d.statements.size = address lines lines.length := by
    rw [← Array.length_toList, drafted.statements, length_statementsOf]
  refine ⟨?_, fun slot entry found => ?_, ?_, ?_⟩
  · rw [List.filterMap_append, ← drafted.names]
    obtain ⟨noVariable, same⟩ | ⟨name, v, declares, absent, _, same⟩ := adds.vars
    · simp [same, noVariable]
    · rw [same, Table.keys_insert, if_neg absent]
      simp [declares]
  · obtain ⟨_, same⟩ | ⟨name, v, _, absent, placed, same⟩ := adds.vars
    · exact drafted.placed slot entry (same ▸ found)
    · rw [same, Table.entries_insert_of_not_mem absent] at found
      rcases getElem?_append_singleton found with old | ⟨rfl, rfl⟩
      · exact drafted.placed slot entry old
      · exact placed
  · rw [labelsOf_append, ← drafted.labels]
    obtain ⟨noLabel, same⟩ | ⟨name, defines, absent, same⟩ := adds.labels
    · simp [same, noLabel]
    · rw [same, Table.entries_insert_of_not_mem absent, defines, size]
      rfl
  · rw [statementsOf_append, ← drafted.statements]
    obtain ⟨noInstruction, same⟩ | ⟨opcode, operands, carried, same⟩ := adds.statements
    · simp [same, noInstruction]
    · simp [same, carried]

/-- The first pass over lines that follow others. -/
theorem DraftedFrom.all {sources : List SourceLine} {done : List (List Char)}
    (drafted : DraftedFrom done d)
    (read : (sources.zipIdx done.length).foldlM (fun d (line, index) =>
      (d.readLine index line.text.toList).mapError (lineError line)) d = .ok d') :
    DraftedFrom (done ++ sources.map fun line => line.text.toList) d' := by
  induction sources generalizing done d with
  | nil =>
      obtain rfl := Except.ok.inj read
      simpa using drafted
  | cons line rest ih =>
      rw [List.zipIdx_cons, List.foldlM_cons] at read
      obtain ⟨e, first, onward⟩ := bind_eq_ok.1 read
      have stepped := drafted.step (adds_of_readLine (ok_of_mapError first))
      have whole := ih stepped (by rwa [List.length_append])
      rwa [List.append_assoc] at whole

/-- A variable that was declared stays as it is. -/
theorem Adds.vars_stay {index : Nat} (adds : Adds d index line d') {name : String} {v : Variable}
    (found : d.vars.get? name = some v) : d'.vars.get? name = some v := by
  rcases adds.vars with ⟨_, same⟩ | ⟨other, w, _, absent, _, added⟩
  · rw [same, found]
  · have differs : name ≠ other := by
      rintro rfl
      exact absent (Table.mem_keys_iff.2 ⟨v, found⟩)
    rw [added, Table.get?_insert, if_neg differs, found]

theorem vars_of_firstPass {sources : List SourceLine} {index : Nat}
    (read : (sources.zipIdx index).foldlM (fun d (line, index) =>
      (d.readLine index line.text.toList).mapError (lineError line)) d = .ok d')
    {name : String} {v : Variable} (found : d.vars.get? name = some v) :
    d'.vars.get? name = some v := by
  induction sources generalizing d index with
  | nil =>
      obtain rfl := Except.ok.inj read
      exact found
  | cons first rest ih =>
      rw [List.zipIdx_cons, List.foldlM_cons] at read
      obtain ⟨e, here, onward⟩ := bind_eq_ok.1 read
      exact ih onward ((adds_of_readLine (ok_of_mapError here)).vars_stay found)

/-- Every line of a source was read, and the variables behind it stay. -/
theorem readLine_of_firstPass {sources : List SourceLine} {index : Nat}
    (read : (sources.zipIdx index).foldlM (fun d (line, index) =>
      (d.readLine index line.text.toList).mapError (lineError line)) d = .ok d')
    {line : SourceLine} (there : line ∈ sources) :
    ∃ e e' index, Draft.readLine e index line.text.toList = .ok e' ∧
      ∀ name v, e'.vars.get? name = some v → d'.vars.get? name = some v := by
  induction sources generalizing d index with
  | nil => exact absurd there List.not_mem_nil
  | cons first rest ih =>
      rw [List.zipIdx_cons, List.foldlM_cons] at read
      obtain ⟨e, here, onward⟩ := bind_eq_ok.1 read
      rcases List.mem_cons.1 there with rfl | later
      · exact ⟨d, e, index, ok_of_mapError here, fun _ _ => vars_of_firstPass onward⟩
      · exact ih onward later

theorem draftedFrom_of_firstPass {sources : List SourceLine} (passed : firstPass sources = .ok d) :
    DraftedFrom (sources.map fun line => line.text.toList) d :=
  draftedFrom_nil.all passed

end DraftedFrom

/-! ## The tables of lines -/

section Lines

variable {lines : List (List Char)}

/-- The statement at a place is that of the line with so many instructions before it. -/
theorem getElem?_statementsOf {i : Nat} {s : Statement} :
    (statementsOf lines)[i]? = some s ↔ ∃ line, lines[s.line]? = some line ∧
      carried? line = some (s.opcode, s.operands) ∧ address lines s.line = i := by
  induction lines using List.reverseRecOn generalizing i with
  | nil => simp [statementsOf]
  | append_singleton lines last ih =>
      have count := length_statementsOf lines
      have atEnd : address (lines ++ [last]) lines.length = address lines lines.length :=
        address_append [last] (Nat.le_refl _)
      rw [statementsOf_append]
      constructor
      · intro found
        by_cases before : i < (statementsOf lines).length
        · rw [List.getElem?_append_left before] at found
          obtain ⟨line, there, said, place⟩ := ih.1 found
          have known : s.line < lines.length := (List.getElem?_eq_some_iff.1 there).1
          exact ⟨line, by rwa [List.getElem?_append_left known], said, by
            rw [address_append [last] (Nat.le_of_lt known), place]⟩
        · cases said : carried? last with
          | none =>
              rw [said, Option.map_none, Option.toList_none, List.append_nil,
                List.getElem?_eq_none (Nat.le_of_not_lt before)] at found
              cases found
          | some carried =>
              rw [said] at found
              rcases getElem?_append_singleton found with old | ⟨place, rfl⟩
              · exact absurd (List.getElem?_eq_some_iff.1 old).1 before
              · exact ⟨last, by simp, said, by rw [atEnd, ← count, place]⟩
      · rintro ⟨line, there, said, rfl⟩
        rcases getElem?_append_singleton there with old | ⟨place, rfl⟩
        · have known : s.line < lines.length := (List.getElem?_eq_some_iff.1 old).1
          have found := ih.2 ⟨line, old, said, rfl⟩
          rw [address_append [last] (Nat.le_of_lt known),
            List.getElem?_append_left (List.getElem?_eq_some_iff.1 found).1, found]
        · rw [place, atEnd, ← count, said]
          simp [← place]

theorem mem_labelsOf {name : String} {a : Nat} :
    (name, a) ∈ labelsOf lines ↔
      ∃ j line, lines[j]? = some line ∧ defined? line = some name ∧ address lines j = a := by
  rw [labelsOf, List.mem_filterMap]
  constructor
  · rintro ⟨⟨line, j⟩, there, made⟩
    obtain ⟨_, defines, same⟩ := Option.map_eq_some_iff.1 made
    obtain ⟨rfl, rfl⟩ := Prod.mk.inj same
    exact ⟨j, line, List.mem_zipIdx_iff_getElem?.1 there, defines, rfl⟩
  · rintro ⟨j, line, there, defines, rfl⟩
    exact ⟨(line, j), List.mem_zipIdx_iff_getElem?.2 there, by simp [defines]⟩

theorem address_mono {j k : Nat} (le : j ≤ k) : address lines j ≤ address lines k :=
  (List.take_sublist_take_left le).countP_le

end Lines

end Assembler

/-! ## Operands -/

open Assembler (literal? statementsOf address carried? declared? defined? carries)

/-- The number that a text stands for as an operand. -/
inductive Program.Denotes (p : Program) (kind : OperandKind) (text : List Char) : Nat → Prop
  | literal {n : Nat} (read : literal? text = some n) : Denotes p kind text n
  | labelOfJump {n : Nat} (noLiteral : literal? text = none) (jump : kind = .code)
      (label : p.labels.get? (String.ofList text) = some n) : Denotes p kind text n
  | variableOfJump {v : Variable} (noLiteral : literal? text = none) (jump : kind = .code)
      (noLabel : p.labels.get? (String.ofList text) = none)
      (cell : p.vars.get? (String.ofList text) = some v) : Denotes p kind text v.address
  | variableOfOther {v : Variable} (noLiteral : literal? text = none) (other : kind ≠ .code)
      (cell : p.vars.get? (String.ofList text) = some v) : Denotes p kind text v.address
  | labelOfOther {n : Nat} (noLiteral : literal? text = none) (other : kind ≠ .code)
      (noCell : p.vars.get? (String.ofList text) = none)
      (label : p.labels.get? (String.ofList text) = some n) : Denotes p kind text n
  | constant {value : Value} {i : Int} (noLiteral : literal? text = none)
      (noLabel : p.labels.get? (String.ofList text) = none)
      (noCell : p.vars.get? (String.ofList text) = none)
      (constant : p.constants.get? (String.ofList text) = some value)
      (whole : value.toInt = .ok i) : Denotes p kind text (i % pow2 32).toNat

/-- The number that the operands of an instruction make. -/
inductive Program.Operand (p : Program) (kind : OperandKind) : List (List Char) → Nat → Prop
  | none : Operand p kind [] 0
  | one {text : List Char} {n : Nat} (denotes : p.Denotes kind text n) :
      Operand p kind [text] n
  | two {first second : List Char} {channel data : Nat} (upper : p.Denotes kind first channel)
      (lower : p.Denotes kind second data) (channel_le : channel ≤ 0xff) (data_le : data ≤ 0xfff) :
      Operand p kind [first, second] (channel <<< 12 ||| data)

namespace Assembler

section Operands

variable {d : Draft} {p : Program} {kind : OperandKind} {text : List Char} {n : Nat}

/-- The tables of a program are those of the first pass. -/
structure Draft.Tables (d : Draft) (p : Program) : Prop where
  constants : p.constants = d.constants
  vars : p.vars = d.vars
  labels : p.labels = d.labels

theorem constant_of_constantOperand? {name : String} (found : d.constantOperand? name = some n) :
    ∃ value i, d.constants.get? name = some value ∧ value.toInt = .ok i ∧
      n = (i % pow2 32).toNat := by
  rw [Draft.constantOperand?] at found
  split at found
  · rename_i i known
    obtain ⟨value, held, whole⟩ := Option.map_eq_some_iff.1 known
    exact ⟨value, i, held, whole, (Option.some.inj found).symm⟩
  · cases found

/-- **A text is resolved to the number that it stands for.** -/
theorem denotes_of_resolveName (tables : d.Tables p) (resolved : d.resolveName kind text = .ok n) :
    p.Denotes kind text n := by
  obtain ⟨constants, vars, labels⟩ := tables
  rw [Draft.resolveName] at resolved
  cases read : literal? text with
  | some k =>
      rw [read] at resolved
      exact .literal (Except.ok.inj resolved ▸ read)
  | none =>
      rw [read] at resolved
      cases label : d.labels.get? (String.ofList text) with
      | some a =>
          cases cell : d.vars.get? (String.ofList text) with
          | some v =>
              by_cases jump : kind = .code
              · simp only [label, jump, if_true, Option.some_or] at resolved
                exact .labelOfJump read jump (by rw [labels, label, Except.ok.inj resolved])
              · simp only [label, cell, jump, if_false, Option.map_some, Option.some_or] at resolved
                obtain rfl := Except.ok.inj resolved
                exact .variableOfOther read jump (by rw [vars, cell])
          | none =>
              simp only [label, cell, Option.map_none, Option.some_or, Option.none_or,
                ite_self] at resolved
              obtain rfl := Except.ok.inj resolved
              by_cases jump : kind = .code
              · exact .labelOfJump read jump (by rw [labels, label])
              · exact .labelOfOther read jump (by rw [vars, cell]) (by rw [labels, label])
      | none =>
          cases cell : d.vars.get? (String.ofList text) with
          | some v =>
              simp only [label, cell, Option.map_some, Option.some_or, Option.none_or,
                ite_self] at resolved
              obtain rfl := Except.ok.inj resolved
              by_cases jump : kind = .code
              · exact .variableOfJump read jump (by rw [labels, label]) (by rw [vars, cell])
              · exact .variableOfOther read jump (by rw [vars, cell])
          | none =>
              simp only [label, cell, Option.map_none, Option.none_or, ite_self] at resolved
              split at resolved
              · rename_i k found
                obtain rfl := Except.ok.inj resolved
                obtain ⟨value, i, held, whole, rfl⟩ := constant_of_constantOperand? found
                exact .constant read (by rw [labels, label]) (by rw [vars, cell])
                  (by rw [constants, held]) whole
              · cases resolved

theorem of_limited {operand : Nat} (limited : (if operand ≥ Instruction.operandLimit then do
    throw (.operandRange operand); return operand else return operand : Pass Nat) = .ok n) :
    operand = n ∧ n < Instruction.operandLimit := by
  split at limited
  · cases limited
  · rename_i below
    obtain rfl := Except.ok.inj limited
    exact ⟨rfl, Nat.lt_of_not_le below⟩

/-- **The operands of a statement are resolved to the number that they make**, of 24 bits. -/
theorem operand_and_lt_of_resolve {s : Statement} (tables : d.Tables p)
    (resolved : d.resolve s = .ok n) :
    p.Operand s.opcode.operandKind s.operands n ∧ n < Instruction.operandLimit := by
  obtain ⟨opcode, operands, line⟩ := s
  rw [Draft.resolve] at resolved
  dsimp only at resolved ⊢
  match operands with
  | [] =>
      obtain ⟨rfl, below⟩ : 0 = n ∧ n < Instruction.operandLimit := of_limited resolved
      exact ⟨.none, below⟩
  | [text] =>
      obtain ⟨operand, made, resolved⟩ := bind_eq_ok.1 resolved
      obtain ⟨rfl, below⟩ := of_limited resolved
      exact ⟨.one (denotes_of_resolveName tables made), below⟩
  | [first, second] =>
      obtain ⟨channel, upper, resolved⟩ := bind_eq_ok.1 resolved
      split at resolved
      · cases resolved
      · obtain ⟨data, lower, resolved⟩ := bind_eq_ok.1 resolved
        split at resolved
        · cases resolved
        · obtain ⟨rfl, limit⟩ := of_limited resolved
          have below : data < 2 ^ 12 := by omega
          have shape : channel * 4096 + data = channel <<< 12 ||| data := by
            rw [← Nat.shiftLeft_add_eq_or_of_lt below, Nat.shiftLeft_eq]
          rw [shape] at limit ⊢
          exact ⟨.two (denotes_of_resolveName tables upper) (denotes_of_resolveName tables lower)
            (by omega) (by omega), limit⟩
  | _ :: _ :: _ :: _ => cases resolved

/-- An instruction is the opcode of its statement and the resolved operand. -/
theorem resolve_of_instruction {lines : Array SourceLine} {s : Statement} {i : Instruction}
    (made : d.instruction lines s = .ok i) :
    i.opcode = s.opcode ∧ d.resolve s = .ok i.operand := by
  rw [Draft.instruction] at made
  split at made
  · rename_i operand resolved
    obtain rfl := Except.ok.inj made
    exact ⟨rfl, resolved⟩
  · cases made

theorem operand_of_resolve {s : Statement} (tables : d.Tables p) (resolved : d.resolve s = .ok n) :
    p.Operand s.opcode.operandKind s.operands n := (operand_and_lt_of_resolve tables resolved).1

end Operands

end Assembler

/-! ## Programs -/

/-- What lines say one by one is what a program holds. -/
structure Program.LineByLine (p : Program) (lines : List (List Char)) : Prop where
  /-- Instruction `i` comes from the line with `i` instructions before it. -/
  codeLines : ∀ i j, p.codeLines[i]? = some j ↔
    ∃ line, lines[j]? = some line ∧ carries line = true ∧ address lines j = i
  increasing : p.codeLines.Pairwise (· < ·)
  length : p.code.length = lines.countP carries
  instruction : ∀ j line opcode operands, lines[j]? = some line →
    carried? line = some (opcode, operands) →
      ∃ n, p.code[address lines j]? = some ⟨opcode, n⟩ ∧ p.Operand opcode.operandKind operands n
  /-- A label stands for the number of instructions on the lines before its own. -/
  label : ∀ name a, p.labels.get? name = some a ↔
    ∃ j line, lines[j]? = some line ∧ defined? line = some name ∧ address lines j = a
  names : p.vars.keys = lines.filterMap declared?
  slot : ∀ k name, p.vars.keys[k]? = some name →
    ∃ v, p.vars.get? name = some v ∧ v.Placed name k

section Programs

open Assembler

variable {limits : MemoryLimits} {sources : SourceSet} {p : Program} {notices : List Notice}

/-- What a program consists of that was assembled. -/
theorem Assembler.drafted_of_run (ran : run limits sources = .ok (p, notices)) :
    ∃ d, firstPass sources.lines.toList = .ok d ∧ d.Tables p ∧
      d.statements.toList.mapM (d.instruction sources.lines) = .ok p.code ∧
      p.codeLines = d.statements.toList.map Statement.line ∧
      p.data = d.vars.values.map Variable.word ∧ p.limits = limits ∧ p.sources = sources ∧
      p.vars.size ≤ limits.data ∧ p.code.length ≤ limits.code := by
  rw [run] at ran
  obtain ⟨d, passed, ran⟩ := bind_eq_ok.1 ran
  dsimp only at ran
  split at ran
  · cases ran
  · rename_i room
    split at ran
    · cases ran
    · rename_i fits
      obtain ⟨code, assembled, ran⟩ := bind_eq_ok.1 ran
      obtain ⟨rfl, _⟩ := Prod.mk.inj (Except.ok.inj ran)
      exact ⟨d, passed, ⟨rfl, rfl, rfl⟩, assembled, rfl, rfl, rfl, rfl, Nat.le_of_not_lt fits,
        length_of_mapM assembled ▸ Nat.le_of_not_lt room⟩

/-- A source is assembled if there is room for what it declares and its operands resolve. -/
theorem Assembler.run_of_firstPass {d : Draft} {code : List Instruction}
    (passed : firstPass sources.lines.toList = .ok d) (codeRoom : d.statements.size ≤ limits.code)
    (dataRoom : d.vars.size ≤ limits.data)
    (assembled : d.statements.toList.mapM (d.instruction sources.lines) = .ok code) :
    ∃ p notices, run limits sources = .ok (p, notices) ∧ p.code = code := by
  rw [run, passed]
  simp only [bind, Except.bind]
  rw [if_neg (Nat.not_lt.2 codeRoom), if_neg (Nat.not_lt.2 dataRoom), assembled]
  exact ⟨_, _, rfl, rfl⟩

/-- **An assembled program is what its lines say one by one.** -/
theorem lineByLine_of_run (ran : run limits sources = .ok (p, notices)) :
    p.LineByLine (sources.lines.toList.map fun line => line.text.toList) := by
  obtain ⟨d, passed, tables, assembled, codeLines, _⟩ := drafted_of_run ran
  have drafted := draftedFrom_of_firstPass passed
  generalize sources.lines.toList.map (fun line => line.text.toList) = lines at drafted ⊢
  rw [drafted.statements] at codeLines assembled
  have places : ∀ i j, p.codeLines[i]? = some j ↔
      ∃ line, lines[j]? = some line ∧ carries line = true ∧ address lines j = i := by
    intro i j
    rw [codeLines, List.getElem?_map, Option.map_eq_some_iff]
    constructor
    · rintro ⟨s, found, rfl⟩
      obtain ⟨line, there, said, place⟩ := getElem?_statementsOf.1 found
      exact ⟨line, there, by rw [carries, said]; rfl, place⟩
    · rintro ⟨line, there, carried, place⟩
      obtain ⟨⟨opcode, operands⟩, said⟩ := Option.isSome_iff_exists.1 carried
      exact ⟨⟨opcode, operands, j⟩, getElem?_statementsOf.2 ⟨line, there, said, place⟩, rfl⟩
  refine ⟨places, ?_, ?_, fun j line opcode operands there said => ?_, fun name a => ?_, ?_,
    fun k name found => ?_⟩
  · refine List.pairwise_iff_getElem.2 fun i k inside inside' less => ?_
    obtain ⟨_, _, _, first⟩ := (places i _).1 (List.getElem?_eq_getElem inside)
    obtain ⟨_, _, _, second⟩ := (places k _).1 (List.getElem?_eq_getElem inside')
    refine Nat.lt_of_not_le fun back => ?_
    have : address lines _ ≤ address lines _ := address_mono back
    omega
  · rw [length_of_mapM assembled, length_statementsOf, address, List.take_length]
  · have stated : (statementsOf lines)[address lines j]? = some ⟨opcode, operands, j⟩ :=
      getElem?_statementsOf.2 ⟨line, there, said, rfl⟩
    obtain ⟨instruction, made, coded⟩ := getElem?_of_mapM assembled stated
    rw [Draft.instruction] at made
    split at made
    · rename_i n resolved
      obtain rfl := Except.ok.inj made
      exact ⟨n, coded, operand_of_resolve tables resolved⟩
    · cases made
  · rw [tables.labels, Table.get?_eq_some_iff, drafted.labels, mem_labelsOf]
  · rw [tables.vars, drafted.names]
  · rw [tables.vars, Table.keys, List.getElem?_map, Option.map_eq_some_iff] at found
    obtain ⟨⟨_, v⟩, entry, rfl⟩ := found
    exact ⟨v, by rw [tables.vars]; exact Table.get?_eq_some_iff.2 (List.mem_of_getElem? entry),
      drafted.placed k _ entry⟩

/-- Jumps to a label that is defined later and to one that shares its name with a variable. -/
def forwardJump : SourceSet where
  lines := #[⟨"main.pp", 1, "const CH 2"⟩, ⟨"main.pp", 2, "var w 1"⟩, ⟨"main.pp", 3, "var x 5"⟩,
    ⟨"main.pp", 4, "x: LDWR x # both"⟩, ⟨"main.pp", 5, ""⟩, ⟨"main.pp", 6, "JMP last"⟩,
    ⟨"main.pp", 7, "JMP x"⟩, ⟨"main.pp", 8, "DDSFRQ CH, x"⟩, ⟨"main.pp", 9, "last:"⟩,
    ⟨"main.pp", 10, "END"⟩]

theorem lineByLine_of_run_forwardJump : ∃ p notices, run {} forwardJump = .ok (p, notices) ∧
    p.code = [⟨.ldwr, 8⟩, ⟨.jmp, 4⟩, ⟨.jmp, 0⟩, ⟨.ddsfrq, 0x2008⟩, ⟨.finish, 0⟩] ∧
      p.LineByLine (forwardJump.lines.toList.map fun line => line.text.toList) := by
  have code : (run {} forwardJump).toOption.map (fun assembled => assembled.1.code) =
      some [⟨.ldwr, 8⟩, ⟨.jmp, 4⟩, ⟨.jmp, 0⟩, ⟨.ddsfrq, 0x2008⟩, ⟨.finish, 0⟩] := by
    decide +kernel
  cases ran : run {} forwardJump with
  | error e =>
      rw [ran] at code
      cases code
  | ok assembled =>
      rw [ran] at code
      exact ⟨_, _, rfl, Option.some.inj code, lineByLine_of_run ran⟩

end Programs

end PulseSequencer
