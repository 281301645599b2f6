import PulseSequencer.Proofs.Formula.Numerals
import PulseSequencer.Proofs.Ppp.Assembling
import PulseSequencer.Proofs.Ppp.GeneratedNames

/-
# PulseSequencer.Proofs.Ppp.Acceptance -- when a compiled source is assembled

What the compiler adds to a source is made for the assembler: its names are identifiers
and differ (`Compilation.cells`, `Compilation.labels`), every operand resolves
(`resolve_wired`), and its declarations are read wherever they stand, if the units of
folded values are (`Compilation.readings`).  What a source brings along is copied.  So
`loads_iff` says when a compiled source is assembled: the names of its cells and procedures
are identifiers that nothing else has, its values can be read one after the other, and the
units of folded values are units.
-/

namespace PulseSequencer.Ppp

open PulseSequencer.Assembler
open PulseSequencer.Formula (IsPlainNumber)
open PulseSequencer.Text (withoutReturn)

set_option autoImplicit false

/-! ## Declarations that the compiler adds -/

/-- The units of folded values. -/
def foldedUnits (lines : List AssemblyLine) : List String :=
  lines.filterMap fun
    | .cell _ [_, _, unit] => some unit
    | _ => none

/-- A unit that the assembler knows, or none. -/
def IsUnit (unit : String) : Prop :=
  unit = "" ∨ (PhysicalUnit.parse unit).toOption.isSome = true

/-- A plain number is declared in every unit that there is. -/
theorem quantity_of_plain {x : Value} (plain : IsPlainNumber x) (unit : Option String) :
    (declaredQuantity x unit).toOption.isSome = true ↔
      ∀ name, unit = some name → (PhysicalUnit.parse name).toOption.isSome = true := by
  obtain ⟨y, made⟩ : ∃ y, declaredQuantity x unit =
      match unit with
      | none => .ok (Quantity.plain y)
      | some name => (Quantity.ofText (Quantity.plain y).magnitude name).mapError .unit := by
    rcases plain with ⟨n, rfl⟩ | ⟨y, rfl⟩ <;> cases unit <;> exact ⟨_, rfl⟩
  rw [made]
  cases unit with
  | none => simp [Except.toOption]
  | some name =>
      simp only [Option.some.injEq, forall_eq', Quantity.ofText]
      cases PhysicalUnit.parse name <;> exact Iff.rfl

/-- **A number is read wherever it is declared**, if its unit is one. -/
theorem line_of_numeral {first : String} (numeral : Number.SignedNumeral first.toList)
    (name : String) (rest : List String) (r : Readings) :
    (r.line (.cell name (first :: rest))).isSome = true ↔
      ∀ unit, fieldAt? ((first :: rest).map String.toList) 2 = some unit →
        (PhysicalUnit.parse unit).toOption.isSome = true := by
  obtain ⟨evaluation, evaluated, plain⟩ := Formula.evaluate_numeral numeral r.scope
  have unsigned : '#' ∉ first.toList := fun there =>
    absurd (numeral.isNumberChar _ there) (by decide)
  have one : '\n' ∉ first.toList := fun there => absurd (numeral.isNumberChar _ there) (by decide)
  have valued : r.value? first = some evaluation.value := by
    rw [Readings.value?, if_neg (not_or.2 ⟨unsigned, one⟩), evaluated]
  rw [← quantity_of_plain plain, Readings.line, List.headD_cons, valued, Option.bind_eq_bind,
    Option.bind_some]
  cases (declaredQuantity evaluation.value
    (fieldAt? ((first :: rest).map String.toList) 2)).toOption <;> exact Iff.rfl

/-- The line of a folded value. -/
theorem line_of_written {magnitude unit : String} (written : Written magnitude unit) (name : String)
    (r : Readings) :
    (r.line (.cell name [magnitude, "", unit])).isSome = true ↔ IsUnit unit := by
  rw [line_of_numeral written.numeral]
  by_cases none' : unit = ""
  · subst none'
    exact ⟨fun _ => .inl rfl, fun _ _ found => (by cases found)⟩
  · have field : fieldAt? ([magnitude, "", unit].map String.toList) 2 = some unit :=
      fieldAt?_eq_some.2 ⟨rfl, none'⟩
    rw [field, IsUnit, or_iff_right none']
    exact ⟨fun all => all unit rfl, fun known _ same => Option.some.inj same ▸ known⟩

/-- A cell that starts at zero. -/
theorem line_zero (name : String) (r : Readings) : (r.line (.cell name ["0"])).isSome = true :=
  (line_of_numeral (Number.signedNumeral_of_int 0) name [] r).2 fun _ found => by cases found

/-! ## Lines of a compiled source -/

/-- The declaration of a folded value or of a scratch cell. -/
inductive AssemblyLine.Added : AssemblyLine → Prop
  | literal {name magnitude unit : String} (isName : IsName name.toList)
      (written : Written magnitude unit) : Added (.cell name [magnitude, "", unit])
  | scratch {name : String} (isName : IsName name.toList) : Added (.cell name ["0"])

theorem AssemblyLine.Added.proper {line : AssemblyLine} (added : line.Added) : line.Proper := by
  cases added with
  | @literal name magnitude unit isName written =>
      refine ⟨isName, written.legible.enclosed, written.legible.trimmed, fun none' => ?_,
        written.legible.words, fun other found => ?_, fun other found => ?_⟩
      · exact written.numeral.ne_nil none'
      · obtain ⟨is, some'⟩ := fieldAt?_eq_some.1 found
        exact absurd (Option.some.inj is).symm some'
      · cases found
  | scratch isName => exact proper_zero isName

/-- An added line is read wherever it stands, if its unit is one. -/
theorem AssemblyLine.Added.line {line : AssemblyLine} (added : line.Added) (r : Readings) :
    (r.line line).isSome = true ↔ ∀ unit ∈ foldedUnits [line], IsUnit unit := by
  cases added with
  | literal _ written =>
      rw [line_of_written written]
      exact List.forall_mem_singleton.symm
  | scratch _ => exact ⟨fun _ _ there => absurd there List.not_mem_nil, fun _ => line_zero _ r⟩

/-- Lines that are read one by one are read in a row. -/
theorem readings_of_added {lines : List AssemblyLine} (added : ∀ line ∈ lines, line.Added)
    (r : Readings) : (lines.foldlM Readings.line r).isSome = true ↔
      ∀ unit ∈ foldedUnits lines, IsUnit unit := by
  induction lines generalizing r with
  | nil => exact ⟨fun _ _ there => absurd there List.not_mem_nil, fun _ => rfl⟩
  | cons line rest ih =>
      obtain ⟨here, others⟩ := List.forall_mem_cons.1 added
      have units : foldedUnits (line :: rest) = foldedUnits [line] ++ foldedUnits rest :=
        List.filterMap_append (l := [line])
      rw [List.foldlM_cons, units, List.forall_mem_append, ← here.line r]
      cases r.line line with
      | none => simp
      | some next => simpa using ih others next

/-- Nothing is read of code. -/
theorem readings_of_coded {lines : List AssemblyLine} (coded : ∀ line ∈ lines, line.Coded)
    (r : Readings) : lines.foldlM Readings.line r = some r := by
  induction lines with
  | nil => rfl
  | cons line rest ih =>
      obtain ⟨here, others⟩ := List.forall_mem_cons.1 coded
      rw [List.foldlM_cons]
      cases here <;> exact ih others

section Compilation

variable {source : String} {items : List Item} {declared : Declared} {code : List PlacedLine}
  {pool : Pool} (compilation : Compilation source items declared code pool)
include compilation

theorem Compilation.ofItems : declared.lines.map PlacedLine.line = items.flatMap Item.lines :=
  (lines_of_items compilation.wellformed compilation.established).1

/-- **The lines of a compiled source** are those of its items, added ones, and its code. -/
theorem Compilation.shape : ∃ added : List AssemblyLine, (∀ line ∈ added, line.Added) ∧
    linesOf pool code = items.flatMap Item.lines ++ added ++ code.map PlacedLine.line := by
  obtain ⟨more, declarations, folded⟩ := compilation.folded
  refine ⟨more.map PlacedLine.line ++ (scratchCells pool.scratch).map PlacedLine.line,
    List.forall_mem_append.2 ⟨fun line there => ?_, fun line there => ?_⟩, ?_⟩
  · obtain ⟨placed, inMore, rfl⟩ := List.mem_map.1 there
    obtain ⟨j, found⟩ := List.mem_iff_getElem?.1 inMore
    obtain ⟨magnitude, unit, written, line⟩ := folded j placed found
    rw [line]
    exact .literal (literalName_isName j) written
  · obtain ⟨placed, inCells, rfl⟩ := List.mem_map.1 there
    obtain ⟨owner, i, taken, rfl⟩ := mem_scratchCells.1 inCells
    exact .scratch (scratchName_isName (compilation.scratchOwner taken) i)
  · rw [linesOf, ← declarations, List.map_append, List.map_append, List.map_append,
      compilation.ofItems, List.append_assoc (items.flatMap Item.lines)]

theorem Compilation.proper : ∀ line ∈ linesOf pool code, line.Proper := by
  obtain ⟨added, areAdded, shape⟩ := compilation.shape
  obtain ⟨_, proper⟩ := lines_of_items compilation.wellformed compilation.established
  rw [shape]
  refine List.forall_mem_append.2 ⟨List.forall_mem_append.2 ⟨proper, fun line there =>
    (areAdded line there).proper⟩, fun line there => (compilation.coded line there).proper⟩

/-- **The declarations of a compiled source are read** exactly if those of the source are,
and the units of folded values are units. -/
theorem Compilation.readings :
    ((linesOf pool code).foldlM Readings.line {}).isSome = true ↔
      ((items.flatMap Item.lines).foldlM Readings.line {}).isSome = true ∧
        ∀ unit ∈ foldedUnits (linesOf pool code), IsUnit unit := by
  obtain ⟨added, areAdded, shape⟩ := compilation.shape
  have units : foldedUnits (linesOf pool code) = foldedUnits added := by
    have ofItems : foldedUnits (items.flatMap Item.lines) = [] := by
      rw [← compilation.ofItems]
      refine List.filterMap_eq_nil_iff.2 fun line there => ?_
      obtain ⟨placed, inLines, rfl⟩ := List.mem_map.1 there
      split
      · rename_i name _ _ _ same
        exact absurd rfl ((compilation.sound.line placed inLines).fields name _ same)
      · rfl
    have ofCode : foldedUnits (code.map PlacedLine.line) = [] := by
      refine List.filterMap_eq_nil_iff.2 fun line there => ?_
      cases compilation.coded line there <;> rfl
    rw [shape, foldedUnits, List.filterMap_append, List.filterMap_append]
    change foldedUnits _ ++ foldedUnits _ ++ foldedUnits _ = _
    rw [ofItems, ofCode, List.nil_append, List.append_nil]
  have quiet : ∀ r : Readings, (code.map PlacedLine.line).foldlM Readings.line r = some r :=
    readings_of_coded compilation.coded
  rw [units, shape, List.foldlM_append, List.foldlM_append]
  cases (items.flatMap Item.lines).foldlM Readings.line {} with
  | none => simp
  | some r =>
      have here := readings_of_added areAdded r
      rw [Option.bind_eq_bind, Option.bind_some, Option.isSome_some, eq_self, true_and, ← here]
      cases added.foldlM Readings.line r with
      | none => exact Iff.rfl
      | some r' =>
          rw [Option.bind_some, quiet r']

/-- **Every instruction of a compiled source names what is there.** -/
theorem Compilation.wired_lines : ∀ op operands, .instruction op operands ∈ linesOf pool code →
    (AssemblyLine.instruction op operands).Wired (CellOf (linesOf pool code))
      (· ∈ labelNames (linesOf pool code)) := by
  intro op operands there
  rw [compilation.labelNames_linesOf]
  exact compilation.wired _ (compilation.mem_code there)

end Compilation

/-! ## When a compiled source is assembled -/

/-- What the assembler asks of a source that is compiled to some lines. -/
structure Assembles (items : List Item) (lines : List AssemblyLine) : Prop where
  /-- The cells of the source have identifiers for names, and no other cell has them. -/
  cells : ∀ cell ∈ cellNames (items.flatMap Item.lines),
    isIdentifier cell.toList = true ∧ (cellNames lines).count cell = 1
  /-- So have its procedures among the labels. -/
  procedures : ∀ p ∈ items.filterMap Item.procedure?,
    isIdentifier p.name.toList = true ∧ (labelNames lines).count p.name = 1
  /-- The declared values can be read one after the other. -/
  values : ((items.flatMap Item.lines).foldlM Readings.line {}).isSome = true
  units : ∀ unit ∈ foldedUnits lines, IsUnit unit

instance (unit : String) : Decidable (IsUnit unit) := inferInstanceAs (Decidable (_ ∨ _))

instance (items : List Item) (lines : List AssemblyLine) : Decidable (Assembles items lines) :=
  decidable_of_iff
    ((∀ cell ∈ cellNames (items.flatMap Item.lines),
        isIdentifier cell.toList = true ∧ (cellNames lines).count cell = 1) ∧
      (∀ p ∈ items.filterMap Item.procedure?,
        isIdentifier p.name.toList = true ∧ (labelNames lines).count p.name = 1) ∧
      ((items.flatMap Item.lines).foldlM Readings.line {}).isSome = true ∧
      ∀ unit ∈ foldedUnits lines, IsUnit unit)
    ⟨fun ⟨cells, procedures, values, units⟩ => ⟨cells, procedures, values, units⟩,
      fun assembles => ⟨assembles.cells, assembles.procedures, assembles.values, assembles.units⟩⟩

/-- Names that differ, behind names that occur once. -/
theorem nodup_append_of_count {xs ys : List String} (once : ∀ x ∈ xs, (xs ++ ys).count x = 1)
    (nodup : ys.Nodup) : (xs ++ ys).Nodup := by
  refine List.nodup_iff_count_le_one.2 fun x => ?_
  by_cases there : x ∈ xs
  · exact Nat.le_of_eq (once x there)
  · rw [List.count_append, List.count_eq_zero_of_not_mem there, Nat.zero_add]
    exact List.nodup_iff_count_le_one.1 nodup x

section Assembles

variable {source : String} {items : List Item} {declared : Declared} {code : List PlacedLine}
  {pool : Pool} (compilation : Compilation source items declared code pool)
include compilation

theorem Compilation.distinctNames (assembles : Assembles items (linesOf pool code)) :
    DistinctNames (linesOf pool code) := by
  obtain ⟨made, nodup, identifiers, cells⟩ := compilation.cells
  obtain ⟨labels, nodupLabels, identifiers', perm⟩ := compilation.labels
  rw [compilation.ofItems] at cells
  rw [← compilation.labelNames_linesOf] at perm
  have procedure : ∀ name ∈ (items.filterMap Item.procedure?).map Procedure.name,
      isIdentifier name.toList = true ∧ (labelNames (linesOf pool code)).count name = 1 :=
    List.forall_mem_map.2 assembles.procedures
  refine ⟨?_, ?_, perm.nodup_iff.2 ?_, fun name there => ?_⟩
  · rw [cells]
    exact nodup_append_of_count (fun cell there => cells ▸ (assembles.cells cell there).2) nodup
  · rw [cells]
    exact List.forall_mem_append.2 ⟨fun cell there => (assembles.cells cell there).1,
      identifiers fun p there => (assembles.procedures p (mem_procedures.2 there)).1⟩
  · exact nodup_append_of_count (fun name there => perm.count_eq name ▸ (procedure name there).2)
      nodupLabels
  · rcases List.mem_append.1 (perm.mem_iff.1 there) with ofProcedure | made
    · exact (procedure name ofProcedure).1
    · exact identifiers' name made

end Assembles

/-- **When a compiled source is assembled.** -/
theorem loads_iff {source : String} {items : List Item} {assembly : Assembly}
    {limits : MemoryLimits} (parsed : parse source = .ok items)
    (noAssembly : ∀ item ∈ items, item.hasAssembly = false)
    (compiled : compile source = .ok assembly)
    (room : Room limits (assembly.lines.map PlacedLine.line)) (name : String) :
    (∃ result, (Program.withLimits limits).load name assembly.text Library.empty = .ok result) ↔
      Assembles items (assembly.lines.map PlacedLine.line) := by
  obtain ⟨declared, code, pool, compilation, lines⟩ :=
    compilation_of_compile parsed noAssembly compiled
  have all : assembly.lines.map PlacedLine.line = linesOf pool code := by rw [lines, linesOf]
  rw [text_of_lines lines, all]
  rw [all] at room
  constructor
  · rintro ⟨result, loaded⟩
    obtain ⟨names, read⟩ := readings_of_load compilation.proper compilation.breaks loaded
    obtain ⟨values, units⟩ := compilation.readings.1 read
    refine ⟨fun cell there => ?_, fun p there => ?_, values, units⟩
    · have known := compilation.mem_cellNames (compilation.ofItems.symm ▸ there)
      exact ⟨names.cell cell known, List.count_eq_one_of_mem names.cells known⟩
    · have known := compilation.procedureLabel (mem_procedures.1 there)
      rw [← compilation.labelNames_linesOf] at known
      exact ⟨names.label _ known, List.count_eq_one_of_mem names.labels known⟩
  · intro assembles
    exact load_of_readings compilation.proper (compilation.distinctNames assembles)
      compilation.wired_lines room (compilation.readings.2 ⟨assembles.values, assembles.units⟩) name

/-- A loop over a procedure that sets a frequency. -/
def sweeping : String :=
  "var n = 3\nvar f = 10 MHz, AD9912_FRQ\nvar t\ndef pulse(length):\n" ++
  "  set_dds(channel=1, frequency=f)\n  update(length)\n" ++
  "while n > 0:\n  t = (n + 1) * (n + 2)\n  pulse(t)\n  n -= 1\n"

theorem loads_iff_sweeping : ∃ (items : List Item) (assembly : Assembly),
    parse sweeping = .ok items ∧ (∀ item ∈ items, item.hasAssembly = false) ∧
    compile sweeping = .ok assembly ∧ Room {} (assembly.lines.map PlacedLine.line) ∧
    Assembles items (assembly.lines.map PlacedLine.line) ∧
    ∃ result, (Program.withLimits {}).load "main.pp" assembly.text Library.empty = .ok result := by
  have accepted : compiles sweeping (fun items assembly =>
      decide (Room {} (assembly.lines.map PlacedLine.line)) &&
        decide (Assembles items (assembly.lines.map PlacedLine.line))) = true := by
    decide +kernel
  obtain ⟨items, assembly, parsed, plain, compiled, holds⟩ := exists_of_compiles accepted
  obtain ⟨room, assembles⟩ := Bool.and_eq_true_iff.1 holds
  have room := of_decide_eq_true room
  have assembles := of_decide_eq_true assembles
  exact ⟨items, assembly, parsed, plain, compiled, room, assembles,
    (loads_iff parsed plain compiled room "main.pp").2 assembles⟩

/-- A variable that has the name of a literal. -/
def clashing : String := "var x\nvar __literal_0\nx = 5\n"

/-- Not every source that is compiled is assembled: the compiler declares a name again. -/
theorem not_loaded_clashing : ∃ (items : List Item) (assembly : Assembly),
    parse clashing = .ok items ∧ (∀ item ∈ items, item.hasAssembly = false) ∧
    compile clashing = .ok assembly ∧ Room {} (assembly.lines.map PlacedLine.line) ∧
    ∀ limits name, ¬∃ result,
      (Program.withLimits limits).load name assembly.text Library.empty = .ok result := by
  have accepted : compiles clashing (fun items assembly =>
      decide (Room {} (assembly.lines.map PlacedLine.line)) &&
        decide (¬(cellNames (assembly.lines.map PlacedLine.line)).Nodup)) = true := by
    decide +kernel
  obtain ⟨items, assembly, parsed, plain, compiled, holds⟩ := exists_of_compiles accepted
  obtain ⟨room, twice⟩ := Bool.and_eq_true_iff.1 holds
  refine ⟨items, assembly, parsed, plain, compiled, of_decide_eq_true room, ?_⟩
  rintro limits name ⟨result, loaded⟩
  obtain ⟨declared, code, pool, compilation, lines⟩ :=
    compilation_of_compile parsed plain compiled
  rw [text_of_lines lines] at loaded
  obtain ⟨names, _⟩ := readings_of_load compilation.proper compilation.breaks loaded
  rw [lines] at twice
  exact of_decide_eq_true twice names.cells

end PulseSequencer.Ppp
