import PulseSequencer.Proofs.Number.Digits
import PulseSequencer.Proofs.Ppp.LineMachine
import PulseSequencer.Proofs.Ppp.Values
import PulseSequencer.Proofs.Program.Inlining
import PulseSequencer.Proofs.Program.LineByLine
import PulseSequencer.Proofs.Table

/-
# PulseSequencer.Proofs.Ppp.Loading -- the program that printed lines become

`Drafted` says what the first pass has made of the lines so far: the cells at addresses
of their own, the labels at the addresses behind them, and the instructions in order.
With the operands resolved this is a layout of the lines: `layout_of_load`.
-/

namespace PulseSequencer.Ppp

open PulseSequencer.Machine
open PulseSequencer.Text (withoutReturn)
open PulseSequencer.Assembler

set_option autoImplicit false

/-! ## Sources -/

/-- Without files to insert the lines of a text are added as they are. -/
theorem splice_numbered {depth : Nat} {opened : List String} {name text : String}
    {s t : SourceSet}
    (spliced : SourceSet.splice Library.empty (depth + 1) opened name text s = .ok t) :
    t.files = (s.addFile name text).files ∧
      t.lines.toList = s.lines.toList ++ (SourceSet.numbered text).map
        fun (number, chars) => ⟨name, number, String.ofList chars⟩ := by
  rw [SourceSet.splice] at spliced
  rw [← SourceSet.lines_addFile s name text]
  generalize s.addFile name text = s at spliced ⊢
  generalize SourceSet.numbered text = entries at spliced ⊢
  induction entries generalizing s with
  | nil =>
      obtain rfl := Except.ok.inj spliced
      simp
  | cons entry rest ih =>
      obtain ⟨number, line⟩ := entry
      rw [List.foldlM_cons] at spliced
      obtain ⟨u, first, onward⟩ := bind_eq_ok.1 spliced
      dsimp only at first
      split at first
      · obtain rfl := Except.ok.inj first
        obtain ⟨files, lines⟩ := ih _ onward
        exact ⟨files, by simp [lines]⟩
      · split at first <;> cases first

theorem printed_toList (lines : List AssemblyLine) :
    (String.join (lines.map fun line => line.text ++ "\n")).toList =
      (lines.map fun line => line.text.toList).flatMap fun t => t ++ ['\n'] := by
  simp [String.toList_join, List.flatMap_map]

section Expand

variable {name text : String} {sources : SourceSet}
  (expanded : SourceSet.expand name text Library.empty = .ok sources)
include expanded

/-- The lines of a text that inserts nothing, with their numbers. -/
theorem expand_numbered : sources.files.keys.head? = some name ∧
    sources.lines.toList = (SourceSet.numbered text).map
      fun (number, chars) => ⟨name, number, String.ofList chars⟩ := by
  obtain ⟨files, lines⟩ := splice_numbered expanded
  exact ⟨by rw [files]; rfl, lines⟩

theorem expand_lines :
    sources.lines.toList.map (fun line => line.text.toList) = Text.lines text.toList := by
  rw [(expand_numbered expanded).2, List.map_map, ← SourceSet.chars_numbered]
  exact List.map_congr_left fun _ _ => String.toList_ofList

end Expand

/-! ## The first pass -/

/-- What the first pass makes of a draft with lines in order. -/
def Draft.ReadsAll : Draft → List AssemblyLine → Draft → Prop
  | d, [], d' => d = d'
  | d, line :: rest, d' => ∃ e, Draft.Reads d line e ∧ ReadsAll e rest d'

theorem readsAll_of_firstPass {lines : List AssemblyLine} {sources : List SourceLine}
    {d d' : Draft} {index : Nat} (neat : ∀ line ∈ lines, line.Neat)
    (texts : sources.map (fun line => line.text.toList) =
      lines.map fun line => withoutReturn line.text.toList)
    (read : (sources.zipIdx index).foldlM (fun d (line, index) =>
      (d.readLine index line.text.toList).mapError (lineError line)) d = .ok d') :
    Draft.ReadsAll d lines d' := by
  induction lines generalizing sources d index with
  | nil =>
      obtain rfl : sources = [] := List.map_eq_nil_iff.1 texts
      exact Except.ok.inj read
  | cons line rest ih =>
      cases sources with
      | nil => cases texts
      | cons source others =>
          simp only [List.map_cons, List.cons.injEq] at texts
          obtain ⟨text, texts⟩ := texts
          rw [List.zipIdx_cons, List.foldlM_cons] at read
          obtain ⟨e, first, onward⟩ := bind_eq_ok.1 read
          have read' : d.readLine index (withoutReturn line.text.toList) = .ok e :=
            text ▸ ok_of_mapError first
          exact ⟨e, readLine_printed (neat line (List.mem_cons_self ..)) read',
            ih (fun other there => neat other (List.mem_cons_of_mem _ there)) texts onward⟩

/-- **No line of an assembled source goes on over several lines.** -/
theorem one_line_of_firstPass {lines : List AssemblyLine} {sources : List SourceLine} {d : Draft}
    (breaks : ∀ line ∈ lines, '\n' ∈ line.text.toList → line.Breaks)
    (texts : sources.map (fun line => line.text.toList) =
      Text.lines (String.join (lines.map fun line => line.text ++ "\n")).toList)
    (passed : firstPass sources = .ok d) : ∀ line ∈ lines, '\n' ∉ line.text.toList := by
  intro line there feed
  obtain ⟨head, neat, first, refused⟩ := breaks line there feed
  have printed := Text.mem_lines_printed
    (List.mem_map_of_mem (f := fun line : AssemblyLine => line.text.toList) there) first
  rw [← printed_toList, ← texts] at printed
  obtain ⟨source, member, same⟩ := List.mem_map.1 printed
  obtain ⟨e, e', index, read, _⟩ := readLine_of_firstPass passed member
  rw [same] at read
  exact refused e e' (readLine_printed neat read)

/-- The instruction that a line is to become. -/
def instruction? : AssemblyLine → Option (Opcode × List (List Char))
  | .instruction op operands => some (op, operands.map String.toList)
  | _ => none

theorem address_eq_length (lines : List AssemblyLine) (i : Nat) :
    address lines i = ((lines.take i).filterMap instruction?).length := by
  rw [address]
  induction lines.take i with
  | nil => rfl
  | cons line rest ih =>
      rw [List.countP_cons, ih, List.filterMap_cons]
      cases line <;> rfl

/-- A variable lies behind those that were declared before it. -/
theorem readVariable_address {d : Draft} {name : String} {fs : List (List Char)}
    {comment : Option (List Char)} {v : Variable} (read : d.readVariable name fs comment = .ok v) :
    v.address = d.vars.size * Variable.wordBytes := by
  unfold Draft.readVariable at read
  obtain ⟨_, _, read⟩ := bind_eq_ok.1 read
  obtain ⟨_, _, read⟩ := bind_eq_ok.1 read
  obtain ⟨_, _, read⟩ := bind_eq_ok.1 read
  dsimp only at read
  split at read <;> split at read <;> cases read <;> rfl

/-- The variables that the first pass has made of lines. -/
structure DraftedCells (lines : List AssemblyLine) (vars : Table String Variable) : Prop where
  keys : vars.keys = cellNames lines
  slots : ∀ k name, (cellNames lines)[k]? = some name →
    ∃ v, vars.get? name = some v ∧ v.address = k * Variable.wordBytes
  declared : ∀ name declared, .cell name declared ∈ lines → isIdentifier name.toList = true ∧
    ∃ (d : Draft) (v : Variable) (comment : Option (List Char)),
      d.readVariable name (fields (seen (joinFields declared).toList)) comment = .ok v ∧
        vars.get? name = some v

/-- The labels that the first pass has made of lines. -/
structure DraftedLabels (lines : List AssemblyLine) (labels : Table String Nat) : Prop where
  keys : labels.keys = labelNames lines
  targets : ∀ j name, lines[j]? = some (.label name) → isIdentifier name.toList = true ∧
    labels.get? name = some (address lines j)

/-- What the first pass has made of lines. -/
structure Drafted (lines : List AssemblyLine) (d : Draft) : Prop where
  cells : DraftedCells lines d.vars
  labels : DraftedLabels lines d.labels
  statements : d.statements.toList.map (fun s => (s.opcode, s.operands)) =
    lines.filterMap instruction?

theorem drafted_nil : Drafted [] {} where
  cells := ⟨rfl, fun _ _ found => (by cases found), fun _ _ there => absurd there List.not_mem_nil⟩
  labels := ⟨rfl, fun _ _ found => (by cases found)⟩
  statements := rfl

section Drafted

variable {lines : List AssemblyLine} {line : AssemblyLine} {d d' : Draft}

/-- Adding lines leaves the addresses of the lines before them. -/
theorem address_append (lines more : List AssemblyLine) {i : Nat} (le : i ≤ lines.length) :
    address (lines ++ more) i = address lines i := by
  rw [address, List.take_append_of_le_length le, address]

theorem DraftedCells.skip {vars : Table String Variable} (cells : DraftedCells lines vars)
    (none' : cellNames [line] = []) : DraftedCells (lines ++ [line]) vars where
  keys := by rw [cellNames_append, none', List.append_nil, cells.keys]
  slots k name found := by
    rw [cellNames_append, none', List.append_nil] at found
    exact cells.slots k name found
  declared name texts there := by
    rcases List.mem_append.1 there with old | this
    · exact cells.declared name texts old
    · obtain rfl := List.mem_singleton.1 this
      cases none'

theorem DraftedCells.add {name : String} {texts : List String} {v : Variable}
    {comment : Option (List Char)} (cells : DraftedCells lines d.vars)
    (identifier : isIdentifier name.toList = true) (absent : d.vars.contains name = false)
    (read : d.readVariable name (fields (seen (joinFields texts).toList)) comment = .ok v) :
    DraftedCells (lines ++ [.cell name texts]) (d.vars.insert name v) := by
  have new := Table.contains_eq_false_iff.1 absent
  have size : d.vars.size = (cellNames lines).length := by
    rw [← cells.keys, Table.keys, List.length_map, Table.size]
  refine ⟨?_, fun k other found => ?_, fun other texts' there => ?_⟩
  · rw [Table.keys_insert, if_neg new, cells.keys, cellNames_append]
    rfl
  · rw [cellNames_append] at found
    rcases getElem?_append_singleton found with old | ⟨rfl, rfl⟩
    · have differs : other ≠ name := by
        rintro rfl
        exact new (cells.keys ▸ List.mem_of_getElem? old)
      rw [Table.get?_insert, if_neg differs]
      exact cells.slots k other old
    · exact ⟨v, by rw [Table.get?_insert, if_pos rfl], by rw [readVariable_address read, size]⟩
  · rcases List.mem_append.1 there with old | this
    · obtain ⟨identifier', e, v', comment', read', found⟩ := cells.declared other texts' old
      have differs : other ≠ name := by
        rintro rfl
        exact new (cells.keys ▸ mem_cellNames.2 ⟨texts', old⟩)
      exact ⟨identifier', e, v', comment', read', by
        rw [Table.get?_insert, if_neg differs, found]⟩
    · obtain ⟨rfl, rfl⟩ := AssemblyLine.cell.inj (List.mem_singleton.1 this)
      exact ⟨identifier, d, v, comment, read, by rw [Table.get?_insert, if_pos rfl]⟩

theorem DraftedLabels.before {labels : Table String Nat} (drafted : DraftedLabels lines labels)
    {j : Nat} {name : String} (there : lines[j]? = some (.label name)) :
    isIdentifier name.toList = true ∧
      labels.get? name = some (address (lines ++ [line]) j) := by
  obtain ⟨known, _⟩ := List.getElem?_eq_some_iff.1 there
  rw [address_append lines [line] (Nat.le_of_lt known)]
  exact drafted.targets j name there

theorem DraftedLabels.skip {labels : Table String Nat} (drafted : DraftedLabels lines labels)
    (none' : labelNames [line] = []) : DraftedLabels (lines ++ [line]) labels where
  keys := by rw [labelNames_append, none', List.append_nil, drafted.keys]
  targets j name there := by
    rcases getElem?_append_singleton there with old | ⟨_, rfl⟩
    · exact drafted.before old
    · cases none'

theorem DraftedLabels.add {name : String} {labels : Table String Nat}
    (drafted : DraftedLabels lines labels) (identifier : isIdentifier name.toList = true)
    (absent : labels.contains name = false) :
    DraftedLabels (lines ++ [.label name])
      (labels.insert name (address lines lines.length)) := by
  have new := Table.contains_eq_false_iff.1 absent
  refine ⟨?_, fun j other there => ?_⟩
  · rw [Table.keys_insert, if_neg new, drafted.keys, labelNames_append]
    rfl
  · rcases getElem?_append_singleton there with old | ⟨rfl, this⟩
    · have differs : other ≠ name := by
        rintro rfl
        exact new (drafted.keys ▸ mem_labelNames.2 (List.mem_of_getElem? old))
      rw [Table.get?_insert, if_neg differs]
      exact drafted.before old
    · obtain rfl := AssemblyLine.label.inj this
      rw [Table.get?_insert, if_pos rfl, address_append lines _ (Nat.le_refl _)]
      exact ⟨identifier, rfl⟩

/-- **What the first pass makes of one line more.** -/
theorem Drafted.step (drafted : Drafted lines d) (reads : Draft.Reads d line d') :
    Drafted (lines ++ [line]) d' := by
  obtain ⟨cells, labels, statements⟩ := drafted
  have size : d.statements.size = address lines lines.length := by
    rw [address_eq_length, List.take_length, ← statements, List.length_map, Array.length_toList]
  have same : instruction? line = none → d.statements.toList.map (fun s => (s.opcode, s.operands)) =
      (lines ++ [line]).filterMap instruction? := by
    intro none'
    rw [List.filterMap_append, ← statements, List.filterMap_cons, none']
    exact (List.append_nil _).symm
  cases line with
  | cell name texts =>
      obtain ⟨identifier, absent, v, comment, read, rfl⟩ := reads
      exact ⟨cells.add identifier absent read, labels.skip rfl, same rfl⟩
  | constant name value =>
      obtain ⟨v, _, rfl⟩ := reads
      exact ⟨cells.skip rfl, labels.skip rfl, same rfl⟩
  | label name =>
      obtain ⟨identifier, absent, rfl⟩ := reads
      exact ⟨cells.skip rfl, size ▸ labels.add identifier absent, same rfl⟩
  | instruction op operands =>
      obtain ⟨index, rfl⟩ := reads
      refine ⟨cells.skip rfl, labels.skip rfl, ?_⟩
      rw [List.filterMap_append, ← statements, Array.toList_push, List.map_append]
      rfl
  | verbatim text => exact absurd reads not_false

theorem Drafted.all {done rest : List AssemblyLine} (drafted : Drafted done d)
    (reads : Draft.ReadsAll d rest d') : Drafted (done ++ rest) d' := by
  induction rest generalizing done d with
  | nil =>
      obtain rfl : d = d' := reads
      rwa [List.append_nil]
  | cons line rest ih =>
      obtain ⟨e, first, onward⟩ := reads
      have next := ih (drafted.step first) onward
      rwa [List.append_assoc] at next

end Drafted

/-! ## The second pass -/

/-- An identifier is no number. -/
theorem literal?_identifier {cs : List Char} (identifier : isIdentifier cs = true) :
    literal? cs = none := by
  cases cs with
  | nil => cases identifier
  | cons c rest =>
      have starts : isIdentifierStart c = true := by
        rw [isIdentifier, Bool.and_eq_true] at identifier
        exact identifier.1
      have noZero : c ≠ '0' := by
        rintro rfl
        exact absurd starts (by decide)
      have noPlus : c ≠ '+' := by
        rintro rfl
        exact absurd starts (by decide)
      have noDigit : c.isDigit = false := by
        cases digit : c.isDigit with
        | false => rfl
        | true =>
            simp only [Char.isDigit, Bool.and_eq_true, decide_eq_true_eq] at digit
            delta isIdentifierStart Char.isAlpha Char.isUpper Char.isLower at starts
            simp only [Bool.or_eq_true, Bool.and_eq_true, decide_eq_true_eq, beq_iff_eq] at starts
            have low := UInt32.le_iff_toNat_le.1 digit.2
            rcases starts with (upper | lower) | rfl
            · have := UInt32.le_iff_toNat_le.1 upper.1
              simp at low this
              omega
            · have := UInt32.le_iff_toNat_le.1 lower.1
              simp at low this
              omega
            · exact absurd digit.2 (by decide)
      have unread : Number.readNat? (c :: rest) = none := by
        rw [Number.readNat?, if_neg (by simp [noDigit])]
      rw [literal?]
      · rw [Number.readWord?, unread]
        exact fun digits same => noPlus (List.cons.inj same).1
      · exact fun digits same => noZero (List.cons.inj same).1
      · exact fun digits same => noZero (List.cons.inj same).1

/-- **A number of 32 bits is read as an operand.** -/
theorem literal?_toDigits {n : Nat} (fits : n < pow2 32) :
    literal? (Nat.toDigits 10 n) = some n := by
  have decimal : ∀ {mark : Char} {rest : List Char}, mark.isDigit = false →
      Nat.toDigits 10 n ≠ '0' :: mark :: rest := by
    intro mark rest noDigit same
    have digit : mark.isDigit = true :=
      Nat.isDigit_of_mem_toDigits (b := 10) (n := n) (by decide) (by decide) (by simp [same])
    exact Bool.false_ne_true (noDigit.symm.trans digit)
  rw [literal?]
  · exact Number.readWord?_toDigits fits
  · exact fun _ => decimal rfl
  · exact fun _ => decimal rfl

section Layout

variable {lines : List AssemblyLine} {d : Draft}

/-- Where the assembler has put a cell. -/
def cellAddress (vars : Table String Variable) (name : String) : Nat :=
  ((vars.get? name).map Variable.address).getD 0

/-- The operand of an instruction that names a cell is its address. -/
theorem resolve_cell (drafted : Drafted lines d) {op : Opcode} {name : String} {line operand : Nat}
    (kind : op.operandKind = .data) (known : name ∈ cellNames lines)
    (resolved : d.resolve ⟨op, [name.toList], line⟩ = .ok operand) :
    operand = cellAddress d.vars name := by
  obtain ⟨texts, there⟩ := mem_cellNames.1 known
  obtain ⟨identifier, _, v, _, _, found⟩ := drafted.cells.declared name texts there
  have address' : d.resolveName .data name.toList = .ok v.address := by
    rw [Draft.resolveName, literal?_identifier identifier]
    simp only [String.ofList_toList, found, Option.map_some, reduceCtorEq, if_false, Option.some_or]
  rw [Draft.resolve, kind] at resolved
  simp only [address'] at resolved
  rw [cellAddress, found]
  obtain ⟨x, first, rest⟩ := bind_eq_ok.1 resolved
  obtain rfl := Except.ok.inj first
  split at rest
  · cases rest
  · exact (Except.ok.inj rest).symm

/-- The operand of a jump that names a label is the address behind it. -/
theorem resolve_label (drafted : Drafted lines d) {op : Opcode} {name : String}
    {line operand j : Nat} (kind : op.operandKind = .code)
    (there : lines[j]? = some (.label name))
    (resolved : d.resolve ⟨op, [name.toList], line⟩ = .ok operand) :
    operand = address lines j := by
  obtain ⟨identifier, found⟩ := drafted.labels.targets j name there
  have address' : d.resolveName .code name.toList = .ok (address lines j) := by
    rw [Draft.resolveName, literal?_identifier identifier]
    simp only [String.ofList_toList, found, if_true, Option.some_or]
  rw [Draft.resolve, kind] at resolved
  simp only [address'] at resolved
  obtain ⟨x, first, rest⟩ := bind_eq_ok.1 resolved
  obtain rfl := Except.ok.inj first
  split at rest
  · cases rest
  · exact (Except.ok.inj rest).symm

theorem filterMap_take {α β : Type} {f : α → Option β} {xs : List α} {i : Nat} {x : α} {y : β}
    (found : xs[i]? = some x) (some' : f x = some y) :
    (xs.filterMap f)[((xs.take i).filterMap f).length]? = some y := by
  obtain ⟨known, rfl⟩ := List.getElem?_eq_some_iff.1 found
  have cut : xs = xs.take i ++ xs[i] :: xs.drop (i + 1) := by
    rw [List.getElem_cons_drop, List.take_append_drop]
  rw [cut, List.filterMap_append, List.filterMap_cons, some']
  simp

/-- **Assembled lines are laid out.** -/
theorem layout_of_drafted (drafted : Drafted lines d) {sources : Array SourceLine}
    {code : List Instruction}
    (assembled : d.statements.toList.mapM (d.instruction sources) = .ok code) :
    Layout lines code (cellAddress d.vars) := by
  refine ⟨fun a inA b inB same => ?_, ?_, fun i op operands found => ?_⟩
  · obtain ⟨j, atA⟩ := List.mem_iff_getElem?.1 inA
    obtain ⟨k, atB⟩ := List.mem_iff_getElem?.1 inB
    obtain ⟨v, foundA, addressA⟩ := drafted.cells.slots j a atA
    obtain ⟨w, foundB, addressB⟩ := drafted.cells.slots k b atB
    rw [cellAddress, cellAddress, foundA, foundB] at same
    have slots : j * Variable.wordBytes = k * Variable.wordBytes :=
      addressA.symm.trans (Eq.trans same addressB)
    obtain rfl := Nat.eq_of_mul_eq_mul_right (by decide : 0 < Variable.wordBytes) slots
    exact Option.some.inj (atA.symm.trans atB)
  · rw [length_of_mapM assembled, address_eq_length, List.take_length, ← drafted.statements,
      List.length_map]
  · have stated := filterMap_take found (f := instruction?) rfl
    rw [← address_eq_length, ← drafted.statements, List.getElem?_map,
      Option.map_eq_some_iff] at stated
    obtain ⟨⟨op', texts, line⟩, there, same⟩ := stated
    obtain ⟨rfl, rfl⟩ := Prod.mk.inj same
    obtain ⟨instruction, made, coded⟩ := getElem?_of_mapM assembled there
    rw [Draft.instruction] at made
    split at made
    · rename_i operand resolved
      obtain rfl := Except.ok.inj made
      refine ⟨operand, coded, fun name known only kind => ?_, fun name j only stands kind => ?_⟩
      · subst only
        exact resolve_cell drafted kind known resolved
      · subst only
        exact resolve_label drafted kind stands resolved
    · cases made

/-- **A program that was loaded from printed lines has read each of them**, as one line. -/
theorem readsAll_of_load {limits : MemoryLimits} {name : String} {program : Program}
    {notices : List Notice} (neat : ∀ line ∈ lines, line.Neat)
    (breaks : ∀ line ∈ lines, '\n' ∈ line.text.toList → line.Breaks)
    (loaded : (Program.withLimits limits).load name
      (String.join (lines.map fun line => line.text ++ "\n")) Library.empty =
        .ok (program, notices)) :
    (∀ line ∈ lines, '\n' ∉ line.text.toList) ∧ ∃ (d : Draft) (sources : Array SourceLine),
      Draft.ReadsAll {} lines d ∧ program.vars = d.vars ∧
        d.statements.toList.mapM (d.instruction sources) = .ok program.code := by
  rw [Program.load] at loaded
  obtain ⟨sources, expanded, ran⟩ := bind_eq_ok.1 loaded
  have texts := expand_lines (ok_of_mapError expanded)
  rw [Assembler.run] at ran
  obtain ⟨d, passed, ran⟩ := bind_eq_ok.1 ran
  have free := one_line_of_firstPass breaks texts passed
  have free' : ∀ text ∈ lines.map (fun line => line.text.toList), '\n' ∉ text := by
    simpa using free
  have printed := Text.lines_printed free'
  rw [printed_toList, printed, List.map_map] at texts
  refine ⟨free, d, sources.lines, readsAll_of_firstPass neat texts passed, ?_⟩
  dsimp only at ran
  split at ran
  · cases ran
  · split at ran
    · cases ran
    · obtain ⟨code, assembled, ran⟩ := bind_eq_ok.1 ran
      obtain ⟨rfl, _⟩ := Prod.mk.inj (Except.ok.inj ran)
      exact ⟨rfl, assembled⟩

theorem drafted_of_readsAll {d : Draft} (reads : Draft.ReadsAll {} lines d) : Drafted lines d :=
  (List.nil_append lines) ▸ drafted_nil.all reads

/-- **A program that was loaded from printed lines is laid out as they are.** -/
theorem layout_of_load {limits : MemoryLimits} {name : String} {program : Program}
    {notices : List Notice} (neat : ∀ line ∈ lines, line.Neat)
    (breaks : ∀ line ∈ lines, '\n' ∈ line.text.toList → line.Breaks)
    (loaded : (Program.withLimits limits).load name
      (String.join (lines.map fun line => line.text ++ "\n")) Library.empty =
        .ok (program, notices)) :
    Layout lines program.code (cellAddress program.vars) ∧
      DraftedCells lines program.vars ∧ (labelNames lines).Nodup := by
  obtain ⟨_, d, sources, reads, vars, assembled⟩ := readsAll_of_load neat breaks loaded
  have drafted := drafted_of_readsAll reads
  rw [vars]
  exact ⟨layout_of_drafted drafted assembled, drafted.cells, drafted.labels.keys ▸ d.labels.nodup⟩

end Layout

end PulseSequencer.Ppp
