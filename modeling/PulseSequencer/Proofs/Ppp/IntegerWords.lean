import PulseSequencer.Proofs.Formula.Numerals
import PulseSequencer.Proofs.Number.Doubles
import PulseSequencer.Proofs.Ppp.Locations
import PulseSequencer.Proofs.Ppp.Operands
import PulseSequencer.Proofs.Program.Coherence

/-
# PulseSequencer.Proofs.Ppp.IntegerWords -- the words of integers that the code uses

The assembler takes the value of a declaration through a double, whose 53 bits are fewer
than those of a word.  So a declared integer has the word of the nearest integer of 53
bits (`assembledWord_int`), and its own word if and only if it is narrow
(`integerWord_eq_iff`).  A declared cell is a variable of the loaded program, whatever
lines there are besides (`variable_of_load`), and every folded integer that the code
needs is declared: `words_of_integers`.
-/

namespace PulseSequencer.Ppp

open PulseSequencer.Assembler
open PulseSequencer.Number (toDouble Narrow)

set_option autoImplicit false

/-! ## Through a double -/

/-- The word of an integer that went through a double.  An integer that is rounded to one
of more than 64 bits has none, and zero is its word. -/
def integerWord (n : Int) : UInt64 :=
  if toDouble n < pow2 63 then UInt64.ofInt (toDouble n) else 0

/-- The encoding of plain values. -/
def plainEncoding : Encoding Float :=
  { Encoding.signed "INT64" 64 "" (Magnitude.ofInt (pow2 63)) .twosComplement with step := 1.0 }

theorem default_none : Encoding.default .none = .ok plainEncoding := by
  rfl

theorem plainEncoding_steps :
    plainEncoding.minSteps = -pow2 63 ∧ plainEncoding.maxSteps = pow2 63 := by
  decide +kernel

/-- A step count of plain values is laid out as it is, if it has 64 bits. -/
theorem plainEncoding_encodeSteps? {steps : Int} (low : -pow2 63 ≤ steps) :
    plainEncoding.encodeSteps? steps =
      if steps < pow2 63 then some (UInt64.ofInt steps) else none := by
  obtain ⟨least, greatest⟩ := plainEncoding_steps
  rw [Encoding.encodeSteps?, Encoding.admit?, if_neg (fun periodic => Bool.false_ne_true periodic.1),
    least, greatest]
  by_cases fits : steps < pow2 63
  · rw [if_neg (by omega), if_pos fits]
    refine congrArg some ?_
    show UInt64.ofInt steps &&& UInt64.ofNat (pow2 64 - 1) = _
    rw [← UInt64.toNat_inj, UInt64.toNat_and,
      show (UInt64.ofNat (pow2 64 - 1)).toNat = 2 ^ 64 - 1 from rfl, Nat.and_two_pow_sub_one_eq_mod,
      Nat.mod_eq_of_lt (UInt64.toNat_lt _)]
  · rw [if_pos (by omega), if_neg fits]
    rfl

theorem encode_plain {x : Float} (finite : x.isFinite = true) :
    (PulseSequencer.encode (.plain x) none).toOption =
      plainEncoding.encodeSteps?
        (Number.roundWithin .halfToEven (-pow2 127) (pow2 127 - 1) (x / 1.0)) := by
  have magnitude : plainEncoding.magnitudeOf (.plain x) = .ok x := by
    rw [Encoding.magnitudeOf, if_pos (by rfl)]
    rfl
  have encoded : PulseSequencer.encode (.plain x) none =
      plainEncoding.encodeQuantity (.plain x) := by
    show (do (← Encoding.default .none).encodeQuantity (.plain x)) = _
    rw [default_none]
    rfl
  have steps : plainEncoding.encode? x = plainEncoding.encodeSteps?
      (Number.roundWithin .halfToEven (-pow2 127) (pow2 127 - 1) (x / 1.0)) := rfl
  rw [encoded, Encoding.encodeQuantity, magnitude]
  simp only [bind, Except.bind, finite, Bool.not_true, Bool.false_eq_true, if_false]
  rw [← steps]
  cases plainEncoding.encode? x <;> rfl

/-- **A declared integer has the word of the nearest one of 53 bits.** -/
theorem assembledWord_int {n : Int} (low : -pow2 63 ≤ n) (high : n < pow2 63) :
    assembledWord (toString n) "" = some (integerWord n) := by
  rcases Int.lt_or_eq_of_le low with low | rfl
  · have written : Written (toString n) "" :=
      ⟨Number.signedNumeral_of_int n, fun _ there => absurd there List.not_mem_nil⟩
    have evaluated : Draft.evaluate {} (toString n) = .ok (.int n) := by
      rw [Draft.evaluate, Formula.evaluate_int low high]
    have field : (fieldAt? [(toString n).toList, [], "".toList] 0).getD "0" = toString n := by
      have some' := written.numeral.ne_nil
      cases chars : (toString n).toList with
      | nil => exact absurd chars some'
      | cons c rest =>
          show String.ofList (c :: rest) = _
          rw [← chars, String.ofList_toList]
    have measured : declaredQuantity (.int n) none = .ok (.plain (Float.ofInt n * 1.0)) := rfl
    have wide : pow2 63 = 2 ^ 63 := rfl
    obtain ⟨finite, rounds⟩ := Number.roundWithin_ofInt (n := n) (by omega) (by omega)
    obtain ⟨least, _⟩ := Number.toDouble_bounds (n := n) (j := 63) (by omega)
    have read : Draft.readVariable {} "" [(toString n).toList, [], "".toList] none = .ok _ :=
      bind_eq_ok.2 ⟨.int n, field.symm ▸ evaluated, bind_eq_ok.2 ⟨.parameter, rfl,
        bind_eq_ok.2 ⟨.plain (Float.ofInt n * 1.0), measured, rfl⟩⟩⟩
    rw [assembledWord, read]
    show some ((PulseSequencer.encode (.plain (Float.ofInt n * 1.0)) none).toOption.getD 0) = _
    rw [encode_plain finite, rounds, plainEncoding_encodeSteps? (by omega), integerWord]
    split <;> rfl
  · decide +kernel

/-- Words tell the integers of 64 bits apart. -/
theorem ofInt_inj {n m : Int} (low : -pow2 63 ≤ n) (high : n < pow2 63) (low' : -pow2 63 ≤ m)
    (high' : m < pow2 63) : UInt64.ofInt n = UInt64.ofInt m ↔ n = m := by
  refine ⟨fun same => ?_, congrArg _⟩
  have wide : pow2 63 = 2 ^ 63 := rfl
  have left : ((UInt64.ofInt n).toNat : Int) = n % 2 ^ 64 := by
    rw [UInt64.ofInt, UInt64.toNat_ofNat']
    omega
  have right : ((UInt64.ofInt m).toNat : Int) = m % 2 ^ 64 := by
    rw [UInt64.ofInt, UInt64.toNat_ofNat']
    omega
  rw [same] at left
  omega

/-- An integer has its own word if and only if 53 bits are enough for it. -/
theorem integerWord_eq_iff {n : Int} (low : -pow2 63 ≤ n) (high : n < pow2 63) :
    integerWord n = UInt64.ofInt n ↔ Narrow n.natAbs := by
  have wide : pow2 63 = 2 ^ 63 := rfl
  obtain ⟨least, _⟩ := Number.toDouble_bounds (n := n) (j := 63) (by omega)
  rw [← Number.toDouble_eq_iff, integerWord]
  split
  · rename_i fits
    exact ofInt_inj (by omega) fits low high
  · rename_i lost
    refine ⟨fun same => ?_, fun same => absurd (same.symm ▸ high) lost⟩
    obtain rfl := (ofInt_inj (n := 0) (by omega) (by omega) low high).1 same
    exact absurd (show toDouble 0 < pow2 63 by decide) lost

/-! ## Declared cells -/

/-- **The declaration of a cell is read**, also where other lines hold assembly text. -/
theorem variable_of_load {lines : List AssemblyLine} {limits : MemoryLimits} {name : String}
    {program : Program} {notices : List Notice}
    (loaded : (Program.withLimits limits).load name
      (String.join (lines.map fun line => line.text ++ "\n")) Library.empty =
        .ok (program, notices))
    {cell : String} {declared : List String} (there : .cell cell declared ∈ lines)
    (isName : IsName cell.toList) (one : '\n' ∉ (AssemblyLine.cell cell declared).text.toList) :
    ∃ (d : Draft) (v : Variable) (comment : Option (List Char)),
      d.readVariable cell (fields (seen (joinFields declared).toList)) comment = .ok v ∧
        program.find? cell = some v ∧ program.data[v.slot]? = some v.word := by
  rw [Program.load] at loaded
  obtain ⟨sources, expanded, ran⟩ := bind_eq_ok.1 loaded
  have coherent := coherent_of_run ran
  obtain ⟨d, passed, tables, _⟩ := Assembler.drafted_of_run ran
  have whole : Text.splitAll (· = '\n') (AssemblyLine.cell cell declared).text.toList =
      [(AssemblyLine.cell cell declared).text.toList] :=
    Text.splitAll_of_free fun x inside => decide_eq_false fun feed => one (feed ▸ inside)
  have printed := Text.mem_lines_printed
    (List.mem_map_of_mem (f := fun line : AssemblyLine => line.text.toList) there)
    (whole ▸ List.mem_singleton.2 rfl)
  rw [← printed_toList, ← expand_lines (ok_of_mapError expanded)] at printed
  obtain ⟨source, member, same⟩ := List.mem_map.1 printed
  obtain ⟨e, e', index, read, stays⟩ := readLine_of_firstPass passed member
  rw [same] at read
  have neat : (AssemblyLine.cell cell declared).Neat := isName
  obtain ⟨_, _, v, comment, made, rfl⟩ := readLine_printed neat read
  have found : program.find? cell = some v := by
    rw [Program.find?, tables.vars]
    exact stays cell v (by rw [Table.get?_insert, if_pos rfl])
  exact ⟨e, v, comment, made, found, coherent.getElem?_data_of_find? found⟩

/-- A folded value has a line that declares its cell. -/
theorem Kept.line {source : String} {items : List Item} {declared : Declared}
    {code : List PlacedLine} {pool : Pool}
    (translation : Translation source items declared code pool) {f : Formula}
    (kept : Kept declared.constants pool f) {evaluation : Formula.Evaluation}
    (folded : Formula.Evaluator.default.evaluateFormula f (.ofValues declared.constants) =
      .ok evaluation) {magnitude unit : String}
    (stored : Setting.storable? evaluation.value = some (magnitude, unit)) :
    ∃ i : Nat, .cell ("__literal_" ++ toString i) [magnitude, "", unit] ∈ linesOf pool code := by
  obtain ⟨evaluation', magnitude', unit', cell, folded', stored', found⟩ := kept
  obtain rfl := Except.ok.inj (folded.symm.trans folded')
  obtain ⟨rfl, rfl⟩ := Prod.mk.inj (Option.some.inj (stored.symm.trans stored'))
  rcases translation.adds.1.declared _ _ found with none' | ⟨placed, there, line, i, rfl⟩
  · cases none'
  · obtain ⟨_, _, other, symbol, _, _, stored', key, line⟩ := line
    obtain ⟨rfl, rfl⟩ := key_injective (number_of_storable stored) (number_of_storable stored') key
    refine ⟨i, ?_⟩
    rw [linesOf, ← line]
    exact List.mem_map_of_mem (List.mem_append_left _ (List.mem_append_left _ there))

/-! ## Operands of the code -/

/-- **Every folded integer that the code needs is in data memory as the nearest integer of
53 bits**, and so as the integer itself if and only if it is narrow. -/
theorem words_of_integers {source : String} {items : List Item} {declared : Declared}
    {assembly : Assembly} (parsed : parse source = .ok items)
    (established : items.foldlM (Declared.item (SourceMap.ofSource source)) {} = .ok declared)
    (compiled : compile source = .ok assembly) {limits : MemoryLimits} {name : String}
    {program : Program} {notices : List Notice}
    (loaded : (Program.withLimits limits).load name assembly.text Library.empty =
      .ok (program, notices))
    {f : Formula} (operand : ProgramOperand declared items f) {evaluation : Formula.Evaluation}
    (folded : Formula.Evaluator.default.evaluateFormula f (.ofValues declared.constants) =
      .ok evaluation)
    {n : Int} (integer : evaluation.value = .int n) (low : -pow2 63 ≤ n) (high : n < pow2 63) :
    ∃ (i : Nat) (v : Variable),
      .cell ("__literal_" ++ toString i) [toString n, "", ""] ∈
        assembly.lines.map PlacedLine.line ∧
      program.find? ("__literal_" ++ toString i) = some v ∧
      program.data[v.slot]? = some (integerWord n) ∧
      (program.data[v.slot]? = some (UInt64.ofInt n) ↔ Narrow n.natAbs) := by
  obtain ⟨declared', code, pool, translation, lines⟩ := translation_of_compile parsed compiled
  obtain rfl := Except.ok.inj (established.symm.trans translation.established)
  have stored : Setting.storable? evaluation.value = some (toString n, "") := by rw [integer]; rfl
  have written : Written (toString n) "" :=
    ⟨Number.signedNumeral_of_int n, fun _ there => absurd there List.not_mem_nil⟩
  have noFeed : ∀ field ∈ [toString n, "", ""], '\n' ∉ field.toList := by
    have number : '\n' ∉ (toString n).toList := fun feed =>
      absurd (written.number _ feed) (by decide)
    simpa using number
  obtain ⟨i, there⟩ := (translation.kept operand).line translation folded stored
  rw [text_of_lines lines] at loaded
  obtain ⟨_, v, _, read, found, word⟩ := variable_of_load loaded there (literalName_isName i)
    (cell_one_line (literalName_isName i) noFeed)
  have same : v.word = integerWord n :=
    Option.some.inj ((written.assembledWord_of_read read).symm.trans (assembledWord_int low high))
  refine ⟨i, v, ?_, found, same ▸ word, ?_⟩
  · rw [lines]
    exact there
  · rw [word, same, Option.some.injEq]
    exact integerWord_eq_iff low high

/-- An integer of 54 bits, passed to a procedure that takes it for a mask. -/
def passingWide : String :=
  "var x\ndef mark(m):\n  set_shutter(m)\nwhile x == 0:\n  mark(x + 9007199254740993)\n"

/-- How the integer is passed and loaded. -/
def passesWide (items : List Item) (assembly : Assembly) (program : Program) : Bool :=
  match statements items, items.foldlM (Declared.item (SourceMap.ofSource passingWide)) {} with
  | [.loop _ _ [.call _ name [⟨none, ⟨.binary offset op left (.int place n), _, _⟩⟩]]],
      .ok declared =>
    n == 9007199254740993 && (match declared.scope.lookup name with
      | some (.procedure _) => true
      | _ => false) &&
    !Setting.isConstant declared.scope (.binary offset op left (.int place n)) && decide (
      .cell "__literal_1" ["9007199254740993", "", ""] ∈ assembly.lines.map PlacedLine.line ∧
      (program.find? "__literal_1").map Variable.slot = some 3 ∧
      program.data[3]? = some 9007199254740992)
  | _, _ => false

theorem accepted_passingWide : ∃ (items : List Item) (declared : Declared) (assembly : Assembly)
    (program : Program) (notices : List Notice) (f : Formula),
    parse passingWide = .ok items ∧
    items.foldlM (Declared.item (SourceMap.ofSource passingWide)) {} = .ok declared ∧
    compile passingWide = .ok assembly ∧
    (Program.withLimits {}).load "main.pp" assembly.text Library.empty = .ok (program, notices) ∧
    ProgramOperand declared items f ∧
    Formula.Evaluator.default.evaluateFormula f (.ofValues declared.constants) =
      .ok ⟨.int 9007199254740993, []⟩ ∧
    .cell "__literal_1" ["9007199254740993", "", ""] ∈ assembly.lines.map PlacedLine.line ∧
    (program.find? "__literal_1").map Variable.slot = some 3 ∧
    program.data[3]? = some 9007199254740992 := by
  have accepted : locates passingWide passesWide = true := by decide +kernel
  obtain ⟨items, assembly, program, notices, parsed, compiled, loaded, holds⟩ :=
    exists_of_locates accepted
  rw [passesWide] at holds
  split at holds
  · rename_i position condition at' name offset op left place n text start declared shape established
    simp only [Bool.and_eq_true, beq_iff_eq, decide_eq_true_eq, Bool.not_eq_true'] at holds
    obtain ⟨⟨⟨rfl, procedure⟩, unknown⟩, cell⟩ := holds
    split at procedure
    · rename_i cells found
      have there : Statement.loop position condition
          [.call at' name [⟨none, ⟨.binary offset op left (.int place 9007199254740993), text,
            start⟩⟩]] ∈ statements items := shape ▸ List.mem_singleton.2 rfl
      exact ⟨items, declared, assembly, program, notices, .int place 9007199254740993, parsed,
        established, compiled, loaded,
        .main there (.body (List.mem_singleton.2 rfl) (.argument (i := 0) rfl (.procedure found)
          (.right unknown (.known rfl)))), rfl, cell⟩
    · cases procedure
  · cases holds

theorem words_of_integers_passingWide : ∃ (items : List Item) (declared : Declared)
    (assembly : Assembly) (program : Program) (notices : List Notice) (f : Formula),
    parse passingWide = .ok items ∧
    items.foldlM (Declared.item (SourceMap.ofSource passingWide)) {} = .ok declared ∧
    compile passingWide = .ok assembly ∧
    (Program.withLimits {}).load "main.pp" assembly.text Library.empty = .ok (program, notices) ∧
    ProgramOperand declared items f ∧
    Formula.Evaluator.default.evaluateFormula f (.ofValues declared.constants) =
      .ok ⟨.int 9007199254740993, []⟩ ∧
    ∃ (i : Nat) (v : Variable),
      .cell ("__literal_" ++ toString i) ["9007199254740993", "", ""] ∈
        assembly.lines.map PlacedLine.line ∧
      program.find? ("__literal_" ++ toString i) = some v ∧
      program.data[v.slot]? = some (integerWord 9007199254740993) ∧
      (program.data[v.slot]? = some (UInt64.ofInt 9007199254740993) ↔
        Narrow (9007199254740993 : Int).natAbs) := by
  obtain ⟨items, declared, assembly, program, notices, f, parsed, established, compiled, loaded,
    operand, folded, _⟩ := accepted_passingWide
  exact ⟨items, declared, assembly, program, notices, f, parsed, established, compiled, loaded,
    operand, folded, words_of_integers parsed established compiled loaded operand folded rfl
      (by decide) (by decide)⟩

/-- The mask 0x20000000000001 loses its lowest bit on the way to data memory. -/
theorem word_of_passingWide : ∃ (items : List Item) (declared : Declared) (assembly : Assembly)
    (program : Program) (notices : List Notice) (f : Formula) (v : Variable),
    parse passingWide = .ok items ∧
    items.foldlM (Declared.item (SourceMap.ofSource passingWide)) {} = .ok declared ∧
    compile passingWide = .ok assembly ∧
    (Program.withLimits {}).load "main.pp" assembly.text Library.empty = .ok (program, notices) ∧
    ProgramOperand declared items f ∧
    Formula.Evaluator.default.evaluateFormula f (.ofValues declared.constants) =
      .ok ⟨.int 9007199254740993, []⟩ ∧
    .cell "__literal_1" ["9007199254740993", "", ""] ∈ assembly.lines.map PlacedLine.line ∧
    program.find? "__literal_1" = some v ∧
    program.data[v.slot]? ≠ some (UInt64.ofInt 9007199254740993) := by
  obtain ⟨items, declared, assembly, program, notices, f, parsed, established, compiled, loaded,
    operand, folded, cell, found, word⟩ := accepted_passingWide
  obtain ⟨v, found, slot⟩ := Option.map_eq_some_iff.1 found
  refine ⟨items, declared, assembly, program, notices, f, v, parsed, established, compiled,
    loaded, operand, folded, cell, found, ?_⟩
  rw [slot, word]
  decide

end PulseSequencer.Ppp
