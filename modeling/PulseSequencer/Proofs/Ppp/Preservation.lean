import PulseSequencer.Proofs.Ppp.CompiledLines
import PulseSequencer.Proofs.Ppp.Simulation
import PulseSequencer.Proofs.Program.Coherence

/-
# PulseSequencer.Proofs.Ppp.Preservation -- compiled programs do what their sources say

`Compiled` gathers what compiling a plain source makes: the declarations of the source,
those of the cells that the compiler adds, and the code of the statements.  Loaded, they
are the lines that the simulation needs (`Compiled.image`), and memory whose literal
cells hold their words stands for a store (`Compiled.holds`).  So assembled code runs to
its end if and only if the source is executed to its end, and then with the same words in
all variables (`runs_iff_executes`).
-/

namespace PulseSequencer.Ppp

open PulseSequencer.Machine

set_option autoImplicit false

/-! ## Stores in memory -/

/-- The words that a memory has for the variables of a program. -/
def storeOf (vars : Table String Variable) (memory : Nat → Word) : Store :=
  fun name => memory (cellAddress vars name)

/-- The literal cells that are no variables of the source hold their assembled words. -/
def LiteralsHold (items : List Item) (vars : Table String Variable) (memory : Nat → Word) : Prop :=
  ∀ (i : Nat) (v : Variable), vars.get? ("__literal_" ++ toString i) = some v →
    (∀ d, .declaration d ∈ items → d.kind ≠ .const → d.name ≠ "__literal_" ++ toString i) →
      memory v.address = v.word

/-- The memory of a board that a program was just written to. -/
def loadedMemory (program : Program) (address : Nat) : Word :=
  program.wordAt (address / Variable.wordBytes)

/-- A board that a program was just written to has every literal. -/
theorem literalsHold_of_load {limits : MemoryLimits} {name text : String} {program : Program}
    {notices : List Notice} (items : List Item)
    (loaded : (Program.withLimits limits).load name text Library.empty = .ok (program, notices)) :
    LiteralsHold items program.vars (loadedMemory program) := by
  intro i v found _
  rw [Program.load] at loaded
  obtain ⟨sources, _, ran⟩ := bind_eq_ok.1 loaded
  have coherent := coherent_of_run ran
  obtain ⟨place, _⟩ := coherent.getElem?_of_find? found
  have slot : v.address / Variable.wordBytes = v.slot := by
    rw [(coherent.placed _ _ place).address_eq, Variable.wordBytes,
      Nat.mul_div_cancel_left _ (by decide)]
  rw [loadedMemory, slot, Program.wordAt, coherent.data, Table.values, List.map_map,
    List.getElem?_map, place]
  rfl

/-! ## What is compiled -/

/-- A source of declarations and plain statements, its items, and what its declarations
establish. -/
structure PlainSource (source : String) (items : List Item) (declared : Declared) : Prop where
  parsed : parse source = .ok items
  established : items.foldlM (Declared.item (SourceMap.ofSource source)) {} = .ok declared
  noProcedure : ∀ p, .procedure p ∉ items
  plain : plainBlock (Setting.isConstant declared.scope) (statements items) = true

/-- The code of the statements of a plain source, and the pool behind it. -/
structure Compiled (source : String) (items : List Item) (declared : Declared)
    (code : List PlacedLine) (pool : Pool) : Prop
    extends Compilation source items declared code pool where
  plain : plainBlock (mainSetting source declared).known (statements items) = true
  main : Made ((mainSetting source declared).block (statements items))
    { declarations := declared.lines } code pool

theorem PlainSource.noAssembly {source : String} {items : List Item} {declared : Declared}
    (plain : PlainSource source items declared) : ∀ item ∈ items, item.hasAssembly = false := by
  intro item there
  cases item with
  | declaration d => rfl
  | procedure p => exact absurd there (plain.noProcedure p)
  | statement s =>
      exact blockAssembly_iff.1 (blockAssembly_of_plain _ plain.plain) s (mem_statements.2 there)

/-- **What compiling a plain source makes.** -/
theorem compiled_of_compile {source : String} {items : List Item} {declared : Declared}
    {assembly : Assembly} (plain : PlainSource source items declared)
    (compiled : compile source = .ok assembly) :
    ∃ code pool, Compiled source items declared code pool ∧
      assembly.lines = pool.declarations ++ scratchCells pool.scratch ++ code := by
  obtain ⟨declared', code, pool, compilation, lines⟩ :=
    compilation_of_compile plain.parsed plain.noAssembly compiled
  obtain rfl := Except.ok.inj (plain.established.symm.trans compilation.established)
  refine ⟨code, pool, ⟨compilation, Setting.plainBlock_known _ plain.plain compilation.spelled, ?_⟩,
    lines⟩
  have none' : items.filterMap Item.procedure? = [] :=
    List.eq_nil_iff_forall_not_mem.2 fun p there => plain.noProcedure p (mem_procedures.1 there)
  obtain ⟨main, procedures, middle, onMain, onProcedures, rfl⟩ := compilation.pieces
  rw [none'] at onProcedures
  obtain ⟨rfl, rfl⟩ := made_pure.1 onProcedures
  rw [mainEnd, none']
  simpa using onMain

section Compiled

variable {source : String} {items : List Item} {declared : Declared} {code : List PlacedLine}
  {pool : Pool} (compiled : Compiled source items declared code pool)
include compiled

/-- Every variable has a cell of its name. -/
theorem Compiled.cells : ∀ v, .declaration v ∈ items → v.kind ≠ .const →
    ∃ slot, declared.scope.symbols.get? v.name = some (.cell v.kind slot v.name) :=
  (Declared.Sound.empty.items compiled.wellformed compiled.established).2.2

theorem Compiled.extended :
    Pool.Extends declared.constants "" { declarations := declared.lines } pool :=
  Setting.grows_block (mainSetting source declared) _ compiled.spelled _ _ _ compiled.main

/-- The declarations that are not those of the source have other fields. -/
theorem Compiled.cellNames_declarations :
    ∃ more : List PlacedLine, pool.declarations = declared.lines ++ more ∧
      ∀ key name, pool.literals.get? key = some name →
        name ∈ cellNames (more.map PlacedLine.line) := by
  obtain ⟨more, cut⟩ := compiled.extended.declarations
  refine ⟨more, cut.symm, fun key name found => ?_⟩
  obtain ⟨placed, there, ⟨_, _, magnitude, unit, _, _, _, _, line⟩, _⟩ := compiled.literal found
  rw [← cut] at there
  rcases List.mem_append.1 there with source | new
  · exact absurd rfl ((compiled.sound.line placed source).fields name _ line)
  · exact mem_cellNames.2 ⟨_, List.mem_map.2 ⟨placed, new, line⟩⟩

/-- All scratch cells are those of the main program. -/
theorem Compiled.scratch {placed : PlacedLine} :
    placed ∈ scratchCells pool.scratch ↔
      ∃ k < pool.scratchCount, placed = ⟨.cell (Setting.scratchName "" k) ["0"], none⟩ := by
  rw [mem_scratchCells]
  constructor
  · rintro ⟨owner, k, below, rfl⟩
    by_cases main : owner = ""
    · subst main
      exact ⟨k, below, rfl⟩
    · rw [compiled.extended.foreign owner main] at below
      exact absurd below (Nat.not_lt_zero k)
  · rintro ⟨k, below, rfl⟩
    exact ⟨"", k, below, rfl⟩

theorem Compiled.cellNames_linesOf :
    cellNames (linesOf pool code) = cellNames (pool.declarations.map PlacedLine.line) ++
      cellNames ((scratchCells pool.scratch).map PlacedLine.line) := by
  rw [linesOf, List.map_append, List.map_append, cellNames_append, cellNames_append,
    compiled.cellNames_code, List.append_nil]

/-- **The lines are those that code can be simulated on**, once the assembler has found no
cell and no label twice. -/
theorem Compiled.image (cells : (cellNames (linesOf pool code)).Nodup)
    (labels : (labelNames (linesOf pool code)).Nodup) :
    Image (mainSetting source declared) (linesOf pool code) pool := by
  obtain ⟨more, cut, literals⟩ := compiled.cellNames_declarations
  have names := compiled.cellNames_linesOf
  have scratch : ∀ k < pool.scratchCount, Setting.scratchName "" k ∈
      cellNames ((scratchCells pool.scratch).map PlacedLine.line) := fun k below =>
    mem_cellNames.2 ⟨_, List.mem_map.2 ⟨_, compiled.scratch.2 ⟨k, below, rfl⟩, rfl⟩⟩
  rw [names, cut, List.map_append, cellNames_append] at cells
  obtain ⟨declarations, _, apart⟩ := List.nodup_append.1 cells
  obtain ⟨_, _, apart'⟩ := List.nodup_append.1 declarations
  have source : ∀ name kind slot cell, declared.scope.lookup name = some (.cell kind slot cell) →
      cell = name ∧ name ∈ cellNames (declared.lines.map PlacedLine.line) := by
    intro name kind slot cell found
    obtain ⟨same, _, there⟩ := compiled.sound.cell name kind slot cell
      (symbols_of_lookup compiled.sound.outer found fun _ same => by cases same)
    exact ⟨same, there⟩
  refine ⟨rfl, labels, fun name kind slot cell found => (source name kind slot cell found).1,
    fun name kind slot cell found => ⟨?_, fun k below => ?_⟩,
    fun key name found => ⟨?_, fun k below => ?_, ?_⟩, fun k below => ?_⟩
  · rw [names, cut, List.map_append, cellNames_append]
    exact List.mem_append_left _ (List.mem_append_left _ (source name kind slot cell found).2)
  · exact apart _ (List.mem_append_left _ (source name kind slot cell found).2) _ (scratch k below)
  · rw [names, cut, List.map_append, cellNames_append]
    exact List.mem_append_left _ (List.mem_append_right _ (literals key name found))
  · exact apart _ (List.mem_append_right _ (literals key name found)) _ (scratch k below)
  · intro kind slot cell there
    exact apart' _ (source name kind slot cell there).2 _ (literals key name found) rfl
  · rw [names]
    exact List.mem_append_right _ (scratch k below)

/-- **Memory whose literal cells hold their words stands for a store.** -/
theorem Compiled.holds (image : Image (mainSetting source declared) (linesOf pool code) pool)
    {vars : Table String Variable} {memory : Nat → Word}
    (drafted : DraftedCells (linesOf pool code) vars) (literals : LiteralsHold items vars memory)
    (w : Word) (flag : Bool) :
    Holds (mainSetting source declared) pool (storeOf vars memory)
      ⟨storeOf vars memory, w, flag⟩ where
  cell _ _ _ _ _ := rfl
  literal formula evaluation magnitude unit name evaluated stored found := by
    obtain ⟨placed, there, ⟨_, evaluation', magnitude', unit', spelled, evaluated', stored', key,
      line⟩, i, rfl⟩ := compiled.literal found
    obtain ⟨rfl, rfl⟩ := key_injective (number_of_storable stored) (number_of_storable stored') key
    have written := written_of_storable
      (Formula.Evaluator.spelled_of_evaluate compiled.sound.constants spelled evaluated') stored'
    have inLines :
        .cell ("__literal_" ++ toString i) [magnitude, "", unit] ∈ linesOf pool code := by
      rw [linesOf, ← line]
      exact List.mem_map_of_mem (List.mem_append_left _ (List.mem_append_left _ there))
    obtain ⟨_, _, v, _, read, known⟩ := drafted.declared _ _ inLines
    have generated : ∀ d, .declaration d ∈ items → d.kind ≠ .const →
        d.name ≠ "__literal_" ++ toString i := by
      intro d declares variable' same
      obtain ⟨slot, cell⟩ := compiled.cells d declares variable'
      exact (image.literal _ _ found).2.2 d.kind slot d.name (same ▸ lookup_of_symbols cell)
    have address : cellAddress vars ("__literal_" ++ toString i) = v.address := by
      rw [cellAddress, known]
      rfl
    rw [written.assembledWord_of_read read, ← literals i v known generated, ← address]
    rfl

end Compiled

/-! ## Runs -/

/-- Declarations are passed. -/
theorem reaches_declared {alu : Alu} {before after : List AssemblyLine}
    (declares : ∀ line ∈ before, line.Neat ∧ line.isInstruction = false) (s : State String) :
    ∀ i ≤ before.length, Reaches (lineStep alu (before ++ after)) (0, s) (i, s) := by
  intro i
  induction i with
  | zero => exact fun _ => .refl _
  | succ i ih =>
      intro below
      have here : (before ++ after)[i]? = some before[i] := by
        rw [List.getElem?_append_left below, List.getElem?_eq_getElem below]
      obtain ⟨neat, passive⟩ := declares _ (List.getElem_mem below)
      have passed : lineStep alu (before ++ after) (i, s) = some (i + 1, s) := by
        rw [lineStep, here]
        generalize before[i] = line at neat passive
        cases line with
        | instruction => cases passive
        | verbatim => exact absurd neat not_false
        | _ => rfl
      exact (ih (Nat.le_of_lt below)).trans (.single passed)

/-- **Compilation preserves meaning.**  For any arithmetic unit, and for any memory whose
literal cells hold their words, assembled code runs from its first instruction to behind
its last one if and only if the source is executed to its end; then every variable has the
word that the source gives it. -/
theorem runs_iff_executes {source : String} {items : List Item} {declared : Declared}
    {assembly : Assembly} (plain : PlainSource source items declared)
    (compiled : compile source = .ok assembly) {limits : MemoryLimits} {name : String}
    {program : Program} {notices : List Notice}
    (loaded : (Program.withLimits limits).load name assembly.text Library.empty =
      .ok (program, notices))
    (alu : Alu) (t : State Nat) (literals : LiteralsHold items program.vars t.memory) :
    let r : Reading := ⟨alu, declared.scope, declared.constants⟩
    let start := storeOf program.vars t.memory
    ((∃ u, Reaches (alu.step program.code) (0, t) (program.code.length, u)) ↔
      ∃ last, Executes r (.block (statements items)) start last) ∧
    ∀ u last, Reaches (alu.step program.code) (0, t) (program.code.length, u) →
      Executes r (.block (statements items)) start last →
        ∀ d, .declaration d ∈ items → d.kind ≠ .const →
          ∃ v, program.vars.get? d.name = some v ∧ u.memory v.address = last d.name := by
  intro r start
  obtain ⟨code, pool, made, lines_eq⟩ := compiled_of_compile plain compiled
  rw [text_of_lines lines_eq] at loaded
  have shape : linesOf pool code =
      (pool.declarations ++ scratchCells pool.scratch).map PlacedLine.line ++
        code.map PlacedLine.line := List.map_append
  obtain ⟨layout, drafted, labels⟩ := layout_of_load made.neat made.breaks loaded
  have image := made.image (drafted.keys ▸ program.vars.nodup) labels
  have holds := made.holds image drafted literals t.w t.flag
  have same : SameState (linesOf pool code) (cellAddress program.vars)
      ⟨start, t.w, t.flag⟩ t := ⟨rfl, rfl, fun _ _ => rfl⟩
  have placed : Placed (linesOf pool code)
      ((pool.declarations ++ scratchCells pool.scratch).map PlacedLine.line).length
      (code.map PlacedLine.line) := ⟨_, [], by rw [List.append_nil, shape], rfl⟩
  have toCode : Reaches (lineStep alu (linesOf pool code)) (0, ⟨start, t.w, t.flag⟩)
      (((pool.declarations ++ scratchCells pool.scratch).map PlacedLine.line).length,
        ⟨start, t.w, t.flag⟩) := by
    rw [shape]
    exact reaches_declared (fun line there => ⟨(made.declares line there).1,
      AssemblyLine.not_instruction (made.declares line there).2.1⟩) _ _ (Nat.le_refl _)
  have toEnd : (linesOf pool code).length =
      ((pool.declarations ++ scratchCells pool.scratch).map PlacedLine.line).length +
        code.length := by
    simp only [shape, List.length_append, List.length_map]
  -- what is executed is run, and the memory behind the run has the words of the store
  have runs : ∀ last, Executes r (.block (statements items)) start last →
      ∃ t' s', Reaches (alu.step program.code) (0, t) (program.code.length, t') ∧
        SameState (linesOf pool code) (cellAddress program.vars) s' t' ∧
          Holds (mainSetting source declared) pool last s' := by
    intro last executed
    obtain ⟨s', reaches, held⟩ := runs_of_executes image executed made.plain 0 _ _ _ made.main
      (.refl pool) _ _ placed holds
    rw [← toEnd] at reaches
    obtain ⟨t', same', reaches'⟩ := layout.reaches same (toCode.trans reaches)
    rw [← layout.size] at reaches'
    exact ⟨t', s', reaches', same', held⟩
  refine ⟨⟨fun ends => ?_, fun ⟨last, executed⟩ => ?_⟩,
    fun u last ends executed d declares var => ?_⟩
  · obtain ⟨u, n, ran⟩ := ends
    obtain ⟨m, _, atCode⟩ := Ends.of_reaches layout (n := n) ⟨t, u, same, ran⟩ toCode
    exact executes_block image layout m (statements items) made.plain 0 _ _ _ made.main
      (.refl pool) _ _ start placed holds m (Nat.le_refl m) atCode
  · obtain ⟨t', _, reaches, _⟩ := runs last executed
    exact ⟨t', reaches⟩
  · obtain ⟨t', s', reaches, same', held⟩ := runs last executed
    obtain ⟨_, rfl⟩ := Prod.mk.inj
      (ends.unique reaches (step_end alu program.code u) (step_end alu program.code t'))
    obtain ⟨slot, cell⟩ := made.cells d declares var
    have found := lookup_of_symbols cell
    have known := (image.cell d.name d.kind slot d.name found).1
    obtain ⟨fields, there⟩ := mem_cellNames.1 known
    obtain ⟨_, _, v, _, _, inVars⟩ := drafted.declared d.name fields there
    have address : cellAddress program.vars d.name = v.address := by
      rw [cellAddress, inVars]
      rfl
    exact ⟨v, inVars, by rw [← address, same'.memory d.name known, held.cell _ _ _ _ found]⟩

/-- A loop with a joined condition and a sum that needs a scratch cell. -/
def climbing : String :=
  "const n = 2\nvar a\nvar b\nwhile a < n and not b:\n  a += 1 + b\n"

theorem runs_iff_executes_climbing :
    ∃ (items : List Item) (declared : Declared) (assembly : Assembly) (program : Program)
      (notices : List Notice),
      PlainSource climbing items declared ∧ compile climbing = .ok assembly ∧
      (Program.withLimits {}).load "climbing" assembly.text Library.empty =
        .ok (program, notices) ∧
      let t : State Nat := ⟨loadedMemory program, 0, false⟩
      let r : Reading := ⟨unsignedAlu, declared.scope, declared.constants⟩
      let start := storeOf program.vars t.memory
      LiteralsHold items program.vars t.memory ∧
      ((∃ u, Reaches (unsignedAlu.step program.code) (0, t) (program.code.length, u)) ↔
        ∃ last, Executes r (.block (statements items)) start last) ∧
      ∀ u last, Reaches (unsignedAlu.step program.code) (0, t) (program.code.length, u) →
        Executes r (.block (statements items)) start last →
          ∀ d, .declaration d ∈ items → d.kind ≠ .const →
            ∃ v, program.vars.get? d.name = some v ∧ u.memory v.address = last d.name := by
  have accepted : (do
      let items ← parse climbing
      let declared ← items.foldlM (Declared.item (SourceMap.ofSource climbing)) {}
      return (items.filterMap Item.procedure?).isEmpty &&
        plainBlock (Setting.isConstant declared.scope) (statements items) :
          Except CompileError Bool).toOption = some true := by
    decide +kernel
  have assembled : ((compile climbing).toOption.bind fun assembly =>
      ((Program.withLimits {}).load "climbing" assembly.text Library.empty).toOption).isSome := by
    decide +kernel
  obtain ⟨items, parsed, accepted⟩ := bind_eq_ok.1 (ok_of_toOption accepted)
  obtain ⟨declared, established, accepted⟩ := bind_eq_ok.1 accepted
  obtain ⟨noProcedure, plain⟩ := Bool.and_eq_true_iff.1 (Except.ok.inj accepted)
  have source : PlainSource climbing items declared := {
    parsed := parsed
    established := established
    noProcedure := fun p there => nomatch
      List.filterMap_eq_nil_iff.1 (List.isEmpty_iff.1 noProcedure) (.procedure p) there
    plain := plain }
  obtain ⟨⟨program, notices⟩, assembled⟩ := Option.isSome_iff_exists.1 assembled
  obtain ⟨assembly, compiled, loaded⟩ := Option.bind_eq_some_iff.1 assembled
  have compiled := ok_of_toOption compiled
  have loaded := ok_of_toOption loaded
  have literals := literalsHold_of_load items loaded
  exact ⟨items, declared, assembly, program, notices, source, compiled, loaded, literals,
    runs_iff_executes source compiled loaded unsignedAlu ⟨loadedMemory program, 0, false⟩ literals⟩

end PulseSequencer.Ppp
