import PulseSequencer.Proofs.Ppp.Literals
import PulseSequencer.Proofs.Ppp.Loading
import PulseSequencer.Proofs.Ppp.Translation
import PulseSequencer.Proofs.Ppp.Wiring

/-
# PulseSequencer.Proofs.Ppp.CompiledLines -- the lines that a source is compiled to

A compiled source is the declarations of its items, those of the cells that the compiler
adds, and the code of its statements and procedures (`Compilation`).  Every line before
the code declares something (`Compilation.declares`).  Every line of the code is a label
or an instruction, and what it names is there: a cell that is declared, or a label that
the code has (`Compilation.wired`).
-/

namespace PulseSequencer.Ppp

open Setting

set_option autoImplicit false

/-- The lines of an assembly text. -/
def linesOf (pool : Pool) (code : List PlacedLine) : List AssemblyLine :=
  (pool.declarations ++ scratchCells pool.scratch ++ code).map PlacedLine.line

/-- What compiling a source without assembly text makes: what its items declare, the code
of the program, and the pool behind it. -/
structure Compilation (source : String) (items : List Item) (declared : Declared)
    (code : List PlacedLine) (pool : Pool) : Prop where
  wellformed : WellformedItems items
  noAssembly : ∀ item ∈ items, item.hasAssembly = false
  established : items.foldlM (Declared.item (SourceMap.ofSource source)) {} = .ok declared
  made : Made (programCode (SourceMap.ofSource source) declared items)
    { declarations := declared.lines } code pool

/-- **What compiling a source makes.** -/
theorem compilation_of_compile {source : String} {items : List Item} {assembly : Assembly}
    (parsed : parse source = .ok items) (noAssembly : ∀ item ∈ items, item.hasAssembly = false)
    (compiled : compile source = .ok assembly) :
    ∃ declared code pool, Compilation source items declared code pool ∧
      assembly.lines = pool.declarations ++ scratchCells pool.scratch ++ code := by
  obtain ⟨declared, code, pool, translation, lines⟩ := translation_of_compile parsed compiled
  exact ⟨declared, code, pool, ⟨wellformed_of_parse parsed noAssembly, noAssembly,
    translation.established, translation.made⟩, lines⟩

/-- A source without assembly text that is compiled, to an assembly as given. -/
def compiles (source : String) (property : List Item → Assembly → Bool) : Bool :=
  (do
    let items ← (parse source).toOption
    let assembly ← (compile source).toOption
    return items.all (fun item => !item.hasAssembly) && property items assembly).getD false

theorem exists_of_compiles {source : String} {property : List Item → Assembly → Bool}
    (accepted : compiles source property = true) :
    ∃ (items : List Item) (assembly : Assembly), parse source = .ok items ∧
      (∀ item ∈ items, item.hasAssembly = false) ∧ compile source = .ok assembly ∧
      property items assembly = true := by
  have some' := (Option.getD_eq_iff.1 accepted).resolve_right fun none' => Bool.noConfusion none'.2
  obtain ⟨items, parsed, some'⟩ := Option.bind_eq_some_iff.1 some'
  obtain ⟨assembly, compiled, some'⟩ := Option.bind_eq_some_iff.1 some'
  obtain ⟨plain, holds⟩ := Bool.and_eq_true_iff.1 (Option.some.inj some')
  exact ⟨items, assembly, ok_of_toOption parsed,
    fun item there => by simpa using List.all_eq_true.1 plain item there,
    ok_of_toOption compiled, holds⟩

theorem text_of_lines {assembly : Assembly} {pool : Pool} {code : List PlacedLine}
    (lines : assembly.lines = pool.declarations ++ scratchCells pool.scratch ++ code) :
    assembly.text = String.join ((linesOf pool code).map fun line => line.text ++ "\n") := by
  rw [Assembly.text, lines, linesOf, List.map_map]
  rfl

/-! ## The code of procedures -/

section Procedures

variable {s : Setting} {p : Procedure} {a b : Pool} {code : List PlacedLine}

/-- The code of a procedure is wired in the scope of its parameters. -/
theorem wires_procedureCode {items : List Item} {declared : Declared} {final : Pool}
    (stands : declared.Stands items) (scope : s.scope = declared.scope)
    (spelled : AllSpelled (Statement.blockFormulas p.body)) (plain : blockAssembly p.body = false)
    (isName : IsName p.name.toList) (made : Made (procedureCode s p) a code b)
    (added : b.Adds s.constants final) :
    ∃ inner, parameterScope p declared.scope.child p.parameters = .ok inner ∧
      WiredLines (KnownCell inner p.name final) (KnownLabel inner) (code.map PlacedLine.line) := by
  simp only [procedureCode, made_bind, made_pure, made_liftM] at made
  obtain ⟨inner, _, ⟨parameters, rfl⟩, body, _, block, rfl, rfl⟩ := made
  rw [scope] at parameters
  refine ⟨inner, parameters, ?_⟩
  have back : ∀ line, WiredLines (KnownCell inner p.name final) (KnownLabel inner)
      ((placed line [.instruction .jmppop []]).map PlacedLine.line) := fun _ =>
    wired_placed (wired_singleton (.other (by decide) .none))
  refine wired_map_append (wired_map_append (wired_placed (wired_singleton (.label isName))) ?_) ?_
  · exact wires_block { s with scope := inner, procedure := p.name }
      (context_procedure stands parameters).predefines p.body spelled plain _ body _ block added
  · split
    · exact wired_nil
    · exact back _
    · exact back _

end Procedures

/-! ## Cells of the code -/

theorem scratchName_isName {owner : String} (isName : owner = "" ∨ IsName owner.toList) (i : Nat) :
    IsName (scratchName owner i).toList := by
  unfold scratchName
  split
  · exact isName_append_nat "__temp_" (by decide) i
  · rename_i some'
    have named : IsName owner.toList := isName.resolve_left fun none' => some' (by rw [none']; rfl)
    refine isName_append_nat _ ⟨fun none' => ?_, fun c there => ?_⟩ i
    · simp at none'
    · simp only [String.toList_append, List.mem_append] at there
      rcases there with (marks | inName) | word
      · exact (show IsName "__".toList by decide).parts c marks
      · exact named.parts c inName
      · exact (show IsName "_temp_".toList by decide).parts c word

theorem literalName_isName (i : Nat) : IsName ("__literal_" ++ toString i).toList :=
  isName_append_nat "__literal_" (by decide) i

theorem mem_scratchCells {scratch : Table String Nat} {placed : PlacedLine} :
    placed ∈ scratchCells scratch ↔ ∃ owner i, i < (scratch.get? owner).getD 0 ∧
      placed = ⟨.cell (scratchName owner i) ["0"], none⟩ := by
  simp only [scratchCells, List.mem_flatMap, List.mem_map, List.mem_range, Prod.exists]
  constructor
  · rintro ⟨owner, count, there, i, below, rfl⟩
    exact ⟨owner, i, by rwa [Table.get?_eq_some_iff.2 there], rfl⟩
  · rintro ⟨owner, i, below, rfl⟩
    cases found : scratch.get? owner with
    | none =>
        rw [found] at below
        exact absurd below (Nat.not_lt_zero i)
    | some count =>
        rw [found] at below
        exact ⟨owner, count, Table.get?_eq_some_iff.1 found, i, below, rfl⟩

/-- A name stands for a parameter of the procedure at hand, or for what it stands for in
the main program. -/
def Scope.Inside (outer : Scope) (own : List String) (scope : Scope) : Prop :=
  ∀ name symbol, scope.lookup name = some symbol → outer.lookup name = some symbol ∨
    ∃ slot, ∃ cell ∈ own, symbol = .cell .var slot cell

theorem inside_of_parameterScope {outer inner : Scope} {p : Procedure}
    (made : parameterScope p outer.child p.parameters = .ok inner) :
    outer.Inside (Declared.cells p) inner := by
  intro name symbol found
  obtain ⟨around, symbols⟩ := parameterScope_symbols made
  rw [Scope.lookup, Scope.lookupOuter, List.findSome?_cons] at found
  split at found
  · rename_i own
    obtain rfl := Option.some.inj found
    rcases symbols name _ own with none' | ⟨parameter, there, slot, same⟩
    · cases none'
    · exact .inr ⟨slot, _, Declared.mem_cells.2 ⟨parameter, there, rfl⟩, same⟩
  · rw [around] at found
    exact .inl found

/-- A line that jumps and stores among its own only jumps to where it leads. -/
theorem AssemblyLine.Wired.of_flows {cells labels stores calls jumps : String → Prop}
    {verbatim : Prop} {line : AssemblyLine} (wired : line.Wired cells labels)
    (flows : line.Flows stores calls jumps verbatim) :
    line.Wired cells fun label => jumps label ∨ calls label := by
  cases wired with
  | label isName => exact .label isName
  | other kind wired => exact .other kind wired
  | jump kind known =>
      refine .jump kind ?_
      cases flows with
      | store => exact absurd kind (by decide)
      | call called => exact .inr called
      | quiet quiet =>
          exact absurd kind (by revert quiet; cases ‹Opcode› <;> decide)
      | jump _ target => exact .inl target

section Compilation

variable {source : String} {items : List Item} {declared : Declared} {code : List PlacedLine}
  {pool : Pool} (compilation : Compilation source items declared code pool)
include compilation

theorem Compilation.sound : declared.Sound :=
  (Declared.Sound.empty.items compilation.wellformed compilation.established).1

theorem Compilation.stands : declared.Stands items := stands_of_items compilation.established

theorem Compilation.translation : Translation source items declared code pool where
  parsed item there := by
    have wellformed := compilation.wellformed item there
    cases item with
    | declaration d => exact fun v is => (wellformed.value v (Option.mem_toList.1 is)).parsed
    | statement s => exact wellformed
    | procedure p => exact wellformed.body
  established := compilation.established
  made := compilation.made

theorem Compilation.spelled : AllSpelled (Statement.blockFormulas (statements items)) :=
  compilation.translation.spelled

theorem Compilation.spelled_body {p : Procedure} (there : .procedure p ∈ items) :
    AllSpelled (Statement.blockFormulas p.body) := compilation.translation.spelled_body there

theorem Compilation.plain : blockAssembly (statements items) = false :=
  blockAssembly_iff.2 fun _ there => compilation.noAssembly _ (mem_statements.1 there)

theorem Compilation.plain_body {p : Procedure} (there : .procedure p ∈ items) :
    blockAssembly p.body = false := compilation.noAssembly _ there

/-- The code of the main program, its end, and the code of the procedures. -/
theorem Compilation.pieces : ∃ main procedures middle,
    Made ((mainSetting source declared).block (statements items))
      { declarations := declared.lines } main middle ∧
    Made (proceduresCode (mainSetting source declared) (items.filterMap Item.procedure?))
      middle procedures pool ∧
    code = main ++ mainEnd items main ++ procedures := compilation.translation.pieces

/-- What the code of a program adds to the pool: scratch cells of the main program and of
its procedures, and folded values. -/
theorem Compilation.adds : Pool.Adds declared.constants { declarations := declared.lines } pool ∧
    ∀ owner, pool.scratch.get? owner ≠ none →
      owner = "" ∨ ∃ p, .procedure p ∈ items ∧ p.name = owner := compilation.translation.adds

theorem Compilation.scratchOwner {owner : String} {i : Nat}
    (taken : i < (pool.scratch.get? owner).getD 0) : owner = "" ∨ IsName owner.toList := by
  refine (compilation.adds.2 owner fun none' => ?_).imp_right fun ⟨p, there, named⟩ =>
    named ▸ (compilation.wellformed _ there : p.Wellformed).name
  rw [none'] at taken
  exact Nat.not_lt_zero i taken

/-- A literal cell is declared behind the declarations of the source. -/
theorem Compilation.literal {key name : String} (found : pool.literals.get? key = some name) :
    ∃ placed ∈ pool.declarations, LiteralLine declared.constants key name placed.line := by
  rcases compilation.adds.1.declared key name found with absent | there
  · cases absent
  · exact there

theorem Compilation.mem_cellNames {cell : String}
    (there : cell ∈ cellNames (declared.lines.map PlacedLine.line)) :
    cell ∈ cellNames (linesOf pool code) := by
  obtain ⟨fields, line⟩ := Ppp.mem_cellNames.1 there
  obtain ⟨placed, inLines, same⟩ := List.mem_map.1 line
  exact Ppp.mem_cellNames.2 ⟨fields, List.mem_map.2 ⟨placed, List.mem_append_left _
    (List.mem_append_left _ (compilation.adds.1.declarations.subset inLines)), same⟩⟩

/-- **A cell that code can name has a name and is declared.** -/
theorem Compilation.declared_of_knownCell {scope : Scope} {own : List String} {owner cell : String}
    (inside : declared.scope.Inside own scope)
    (parameters : ∀ cell ∈ own, IsName cell.toList ∧
      cell ∈ cellNames (declared.lines.map PlacedLine.line))
    (known : KnownCell scope owner pool cell) :
    IsName cell.toList ∧ cell ∈ cellNames (linesOf pool code) := by
  have sound := compilation.sound
  cases known with
  | inScope is =>
      obtain ⟨name, kind, slot, found⟩ := is
      rcases inside name _ found with found | ⟨_, other, there, same⟩
      · obtain ⟨rfl, isName, there⟩ := sound.cell name kind slot cell
          (symbols_of_lookup sound.outer found fun _ same => by cases same)
        exact ⟨isName, compilation.mem_cellNames there⟩
      · obtain ⟨_, _, rfl⟩ := Symbol.cell.inj same
        exact (parameters cell there).imp_right compilation.mem_cellNames
  | parameter found there =>
      rcases inside _ _ found with found | ⟨_, _, _, same⟩
      · obtain ⟨_, all⟩ := sound.procedure _ _
          (symbols_of_lookup sound.outer found fun _ same => by cases same)
        exact (all cell there).imp_right compilation.mem_cellNames
      · cases same
  | literal found =>
      obtain ⟨placed, there, ⟨_, _, magnitude, unit, _, _, _, _, line⟩, i, rfl⟩ :=
        compilation.literal found
      exact ⟨literalName_isName i, Ppp.mem_cellNames.2 ⟨_, List.mem_map.2 ⟨placed,
        List.mem_append_left _ (List.mem_append_left _ there), line⟩⟩⟩
  | scratch taken =>
      refine ⟨scratchName_isName (compilation.scratchOwner taken) _,
        Ppp.mem_cellNames.2 ⟨["0"], List.mem_map.2 ⟨_, List.mem_append_left _
          (List.mem_append_right _ (mem_scratchCells.2 ⟨owner, _, taken, rfl⟩)), rfl⟩⟩⟩

/-! ## Lines before the code -/

/-- What a folded value is declared with. -/
theorem Compilation.written {key name magnitude unit : String} {line : AssemblyLine}
    (literal : LiteralLine declared.constants key name line)
    (is : line = .cell name [magnitude, "", unit]) : Written magnitude unit := by
  obtain ⟨⟨formula, evaluation, _, _, spelled, evaluated, stored, _, rfl⟩, _⟩ := literal
  obtain ⟨_, same⟩ := AssemblyLine.cell.inj is
  simp only [List.cons.injEq, and_true, true_and] at same
  obtain ⟨rfl, rfl⟩ := same
  exact written_of_storable
    (Formula.Evaluator.spelled_of_evaluate compilation.sound.constants spelled evaluated) stored

/-- **The declarations behind those of the source** are of folded values, numbered from
zero. -/
theorem Compilation.folded : ∃ more, declared.lines ++ more = pool.declarations ∧
    ∀ (j : Nat) (placed : PlacedLine), more[j]? = some placed →
      ∃ magnitude unit, Written magnitude unit ∧
        placed.line = .cell ("__literal_" ++ toString j) [magnitude, "", unit] := by
  obtain ⟨more, declarations⟩ := compilation.adds.1.declarations
  refine ⟨more, declarations, fun j placed found => ?_⟩
  have there : pool.declarations[declared.lines.length + j]? = some placed := by
    rw [← declarations, List.getElem?_append_right (Nat.le_add_right _ _),
      Nat.add_sub_cancel_left, found]
  obtain ⟨_, i, _, literal, place⟩ :=
    compilation.adds.1.numbered _ placed (Nat.le_add_right _ _) there
  obtain rfl : i = j := Nat.add_left_cancel place
  obtain ⟨⟨_, _, magnitude, unit, _, _, _, _, line⟩, _⟩ := id literal
  exact ⟨magnitude, unit, compilation.written literal line, line⟩

/-- **The lines before the code declare something**, and none of them goes on over several
lines unless the assembler refuses it. -/
theorem Compilation.declares :
    ∀ line ∈ (pool.declarations ++ scratchCells pool.scratch).map PlacedLine.line,
      line.Neat ∧ line.isDeclaration = true ∧ ('\n' ∈ line.text.toList → line.Breaks) := by
  intro line there
  obtain ⟨placed, inLines, rfl⟩ := List.mem_map.1 there
  obtain ⟨more, declarations, folded⟩ := compilation.folded
  rw [← declarations, List.mem_append, List.mem_append] at inLines
  rcases inLines with (source | literal) | scratch
  · have declares := compilation.sound.line placed source
    exact ⟨declares.neat, declares.passive, declares.breaks⟩
  · obtain ⟨i, found⟩ := List.mem_iff_getElem?.1 literal
    obtain ⟨magnitude, unit, written, line⟩ := folded i placed found
    rw [line]
    refine ⟨literalName_isName i, rfl, fun feed => absurd feed
      (cell_one_line (literalName_isName i) ?_)⟩
    simp only [List.forall_mem_cons]
    exact ⟨fun there => Bool.false_ne_true (written.number _ there),
      List.not_mem_nil, fun there => Bool.false_ne_true (written.symbol _ there),
      fun _ there => absurd there List.not_mem_nil⟩
  · obtain ⟨owner, i, taken, rfl⟩ := mem_scratchCells.1 scratch
    have isName := scratchName_isName (compilation.scratchOwner taken) i
    exact ⟨isName, rfl, fun feed => absurd feed (cell_one_line isName (by simp))⟩

/-! ## Lines of the code -/

/-- What lines of code may name: cells that are declared. -/
def CellOf (lines : List AssemblyLine) (cell : String) : Prop :=
  IsName cell.toList ∧ cell ∈ cellNames lines

/-- A label of the code, or a procedure of the source. -/
def LabelOf (items : List Item) (code : List AssemblyLine) (label : String) : Prop :=
  label ∈ labelNames code ∨ ∃ p, .procedure p ∈ items ∧ p.name = label

/-- Code whose lines name declared cells, and labels of their own or of procedures. -/
theorem Compilation.wired_piece {inner scope : Scope} {own : List String} {owner : String}
    {context : Option Procedure} {sites : List Site} {verbatim : Prop} {piece : List AssemblyLine}
    (inside : declared.scope.Inside own inner)
    (parameters : ∀ cell ∈ own, IsName cell.toList ∧
      cell ∈ cellNames (declared.lines.map PlacedLine.line))
    (wired : WiredLines (KnownCell inner owner pool) (KnownLabel inner) piece)
    (inContext : Context items context scope) (codes : Codes scope owner sites [] verbatim piece) :
    WiredLines (CellOf (linesOf pool code)) (LabelOf items piece) piece := by
  intro line there
  refine ((wired line there).of_flows (codes.flows line there)).mono
    (fun cell known => compilation.declared_of_knownCell inside parameters known)
    fun label leads => ?_
  rcases leads with (outs | here) | ⟨_, cells, found⟩
  · exact absurd outs List.not_mem_nil
  · exact .inl here
  · obtain ⟨q, procedure, named, _⟩ := inContext.procedure label cells found
    exact .inr ⟨q, procedure, named⟩

omit compilation in
theorem WiredLines.join {cells : String → Prop} {a b : List AssemblyLine}
    (first : WiredLines cells (LabelOf items a) a) (second : WiredLines cells (LabelOf items b) b) :
    WiredLines cells (LabelOf items (a ++ b)) (a ++ b) := by
  have labels : labelNames (a ++ b) = labelNames a ++ labelNames b := labelNames_append a b
  refine .append (fun line there => (first line there).mono (fun _ known => known) fun label => ?_)
    (fun line there => (second line there).mono (fun _ known => known) fun label => ?_)
  · exact .imp_left fun here => labels ▸ List.mem_append_left _ here
  · exact .imp_left fun here => labels ▸ List.mem_append_right _ here

theorem Compilation.wired_procedures : ∀ {procedures : List Procedure} {a b : Pool}
    {piece : List PlacedLine}, (∀ p ∈ procedures, .procedure p ∈ items) →
    Made (proceduresCode (mainSetting source declared) procedures) a piece b →
    b.Adds declared.constants pool →
      WiredLines (CellOf (linesOf pool code)) (LabelOf items (piece.map PlacedLine.line))
        (piece.map PlacedLine.line)
  | [], a, b, piece, _, made, _ => by
      obtain ⟨rfl, _⟩ := made_pure.1 made
      exact wired_nil
  | p :: rest, a, b, piece, known, made, added => by
      rw [proceduresCode] at made
      simp only [made_bind, made_pure] at made
      obtain ⟨head, middle, first, tail, _, onward, rfl, rfl⟩ := made
      obtain ⟨here, others⟩ := List.forall_mem_cons.1 known
      have wellformed : p.Wellformed := compilation.wellformed _ here
      obtain ⟨adds, _⟩ := adds_proceduresCode
        (fun q there => compilation.spelled_body (others q there)) onward
      obtain ⟨inner, parameters, wired⟩ := wires_procedureCode compilation.stands rfl
        (compilation.spelled_body here) (compilation.plain_body here) wellformed.name first
        (adds.trans added)
      obtain ⟨scope, inContext, codes⟩ := (procedureCode_of_made compilation.stands rfl first).codes
      obtain ⟨_, cells⟩ := compilation.sound.procedure _ _ (compilation.stands.procedure p here)
      rw [List.map_append]
      exact (compilation.wired_piece (inside_of_parameterScope parameters) cells wired inContext
        codes).join (Compilation.wired_procedures others onward added)

/-- The label of every procedure is in the code. -/
theorem Compilation.procedureLabel {p : Procedure} (there : .procedure p ∈ items) :
    p.name ∈ labelNames (code.map PlacedLine.line) := by
  obtain ⟨main, procedures, _, _, onProcedures, rfl⟩ := compilation.pieces
  obtain ⟨own, procedure, before, after, inside⟩ :=
    procedureCode_infix compilation.stands rfl onProcedures p (mem_procedures.2 there)
  have label := procedure.label
  simp only [List.map_append, labelNames_append, ← inside, List.mem_append]
  exact .inr (.inl (.inr label))

/-- **What the code names is there**: every line is a label, a jump to a label of the
code, or an instruction on declared cells. -/
theorem Compilation.wired :
    WiredLines (CellOf (linesOf pool code))
      (fun label => label ∈ labelNames (code.map PlacedLine.line))
      (code.map PlacedLine.line) := by
  have labels : WiredLines (CellOf (linesOf pool code)) (LabelOf items (code.map PlacedLine.line))
      (code.map PlacedLine.line) := by
    obtain ⟨main, procedures, middle, onMain, onProcedures, rfl⟩ := id compilation.pieces
    obtain ⟨adds, _⟩ := adds_proceduresCode
      (fun p there => compilation.spelled_body (mem_procedures.1 there)) onProcedures
    have context := context_program compilation.stands
    have ends : WiredLines (CellOf (linesOf pool (main ++ mainEnd items main ++ procedures)))
        (LabelOf items ((mainEnd items main).map PlacedLine.line))
        ((mainEnd items main).map PlacedLine.line) := by
      unfold mainEnd
      split
      · exact wired_nil
      · split
        · exact wired_nil
        · exact wired_placed (wired_singleton (.other (by decide) .none))
    rw [List.map_append, List.map_append]
    refine (WiredLines.join ?_ ends).join (compilation.wired_procedures
      (fun p there => mem_procedures.1 there) onProcedures (.refl pool))
    have inside : declared.scope.Inside [] declared.scope := fun _ _ found => .inl found
    exact compilation.wired_piece inside
      (fun _ there => absurd there List.not_mem_nil)
      (wires_block (mainSetting source declared) context.predefines _ compilation.spelled
        compilation.plain _ main middle onMain adds) context
      (codes_block (mainSetting source declared) context.predefines _ onMain)
  refine fun line there => (labels line there).mono (fun _ known => known) fun label leads => ?_
  rcases leads with here | ⟨p, procedure, rfl⟩
  · exact here
  · exact compilation.procedureLabel procedure

theorem Compilation.isName_label {label : String}
    (there : label ∈ labelNames (code.map PlacedLine.line)) : IsName label.toList := by
  cases compilation.wired _ (mem_labelNames.1 there) with
  | label isName => exact isName

/-- The lines of the code name cells and labels by names. -/
theorem Compilation.coded : ∀ line ∈ code.map PlacedLine.line, line.Coded :=
  fun line there => (compilation.wired line there).mono (fun _ known => known.1)
    fun _ known => compilation.isName_label known

/-- Instructions stand in the code. -/
theorem Compilation.mem_code {op : Opcode} {operands : List String}
    (there : .instruction op operands ∈ linesOf pool code) :
    .instruction op operands ∈ code.map PlacedLine.line := by
  rw [linesOf, List.map_append, List.mem_append] at there
  refine there.resolve_left fun before => ?_
  cases (compilation.declares _ before).2.1

theorem Compilation.cellNames_code : cellNames (code.map PlacedLine.line) = [] := by
  refine List.filterMap_eq_nil_iff.2 fun line there => ?_
  cases compilation.coded line there <;> rfl

/-- The labels of a compiled source are those of its code. -/
theorem Compilation.labelNames_linesOf :
    labelNames (linesOf pool code) = labelNames (code.map PlacedLine.line) := by
  have none' : labelNames ((pool.declarations ++ scratchCells pool.scratch).map PlacedLine.line) =
      [] := by
    refine List.filterMap_eq_nil_iff.2 fun line there => ?_
    have declares := (compilation.declares line there).2.1
    cases line with
    | label name => cases declares
    | _ => rfl
  rw [linesOf, List.map_append, labelNames_append, none', List.nil_append]

theorem Compilation.neat : ∀ line ∈ linesOf pool code, line.Neat := by
  rw [linesOf, List.map_append]
  exact List.forall_mem_append.2 ⟨fun line there => (compilation.declares line there).1,
    fun line there => (compilation.coded line there).neat⟩

theorem Compilation.breaks :
    ∀ line ∈ linesOf pool code, '\n' ∈ line.text.toList → line.Breaks := by
  rw [linesOf, List.map_append]
  exact List.forall_mem_append.2 ⟨fun line there => (compilation.declares line there).2.2,
    fun line there feed => absurd feed (compilation.coded line there).one_line⟩

end Compilation

end PulseSequencer.Ppp
