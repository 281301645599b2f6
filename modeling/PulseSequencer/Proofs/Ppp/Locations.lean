import PulseSequencer.Proofs.Ppp.CompiledLines
import PulseSequencer.Proofs.Ppp.Emission
import PulseSequencer.Proofs.Program.LineByLine
import PulseSequencer.Program.Basic
import Mathlib.Data.List.Sigma

/-
# PulseSequencer.Proofs.Ppp.Locations -- from addresses back to the source

The lines of an assembly text are counted as its entries are, unless a text of the source
goes on over several lines.  So every instruction of a loaded program is located at the
line that its own line of code is marked with (`located_of_compile`): where the statement
starts that it is there for.  A condition of an `elif` is located at the `if` of its
branching (`location_of_elif`).
-/

namespace PulseSequencer.Ppp

open PulseSequencer.Text (withoutReturn)

set_option autoImplicit false

/-! ## What lines carry -/

/-- The instruction that a line carries once it is printed. -/
def AssemblyLine.carried? (line : AssemblyLine) : Option (Opcode × List (List Char)) :=
  Assembler.carried? (withoutReturn line.text.toList)

def EmittedLine.carries (e : EmittedLine) : Bool := e.line.carried?.isSome

/-- A keyword that declares something. -/
theorem carried?_keyword {keyword : List Char} (text : List Char)
    (declares : keyword = ['v', 'a', 'r'] ∨ keyword = ['c', 'o', 'n', 's', 't']) :
    Assembler.carried? (withoutReturn (keyword ++ ' ' :: text)) = none := by
  have code : ∃ rest, (Assembler.splitComment (withoutReturn (keyword ++ ' ' :: text))).1 =
      keyword ++ if rest = [] then [] else ' ' :: rest := by
    have keeps : (keyword ++ [' ']).getLast? ≠ some '\r' := by
      rw [List.getLast?_concat]
      decide
    have unsigned : '#' ∉ keyword ++ [' '] := by rcases declares with rfl | rfl <;> simp
    have solid : keyword ≠ [] ∧ keyword.all (fun c => !Text.isBlank c) = true := by
      rcases declares with rfl | rfl <;> decide
    have notBlank : ∀ c ∈ keyword, Text.isBlank c = false := fun c there => by
      simpa using List.all_eq_true.1 solid.2 c there
    refine ⟨Text.trimRight (SourceSet.withoutComment (withoutReturn text)), ?_⟩
    rw [splitComment_fst, List.append_cons, Text.withoutReturn_append keeps,
      withoutComment_append unsigned, List.append_assoc, Text.trim_word solid.1 notBlank,
      List.singleton_append, Text.trimRight_blank (by decide)]
  obtain ⟨rest, code⟩ := code
  rw [Assembler.carried?, Assembler.content]
  dsimp only
  rw [code]
  generalize (Assembler.splitComment _).2 = comment
  by_cases none' : rest = []
  · rw [if_pos none', List.append_nil]
    rcases declares with rfl | rfl <;> rfl
  · rw [if_neg none']
    rcases declares with rfl | rfl <;> rfl

/-- A line that declares something carries no instruction. -/
theorem carried?_of_isDeclaration {line : AssemblyLine} (declares : line.isDeclaration = true) :
    line.carried? = none := by
  cases line with
  | cell name declared =>
      rw [AssemblyLine.carried?, cell_toList]
      exact carried?_keyword _ (.inl rfl)
  | constant name value =>
      rw [AssemblyLine.carried?, constant_toList]
      exact carried?_keyword _ (.inr rfl)
  | _ => cases declares

/-! ## What lines are marked with -/

/-- The marked lines, each with its number. -/
def markedLines (a : Assembly) : List (Nat × Nat) :=
  a.lines.zipIdx.filterMap fun (l, i) => l.source.map fun source => (i + 1, source)

/-- A line of an assembly is looked up at its number. -/
theorem get?_lineLookup (a : Assembly) (i : Nat) :
    a.lineLookup.get? (i + 1) = a.lines[i]?.bind PlacedLine.source := by
  have keys : ((markedLines a).map Prod.fst).Nodup := by
    refine List.pairwise_map.2 (List.pairwise_filterMap.2 ?_)
    refine (List.pairwise_map.1 (List.nodup_zipIdx_map_snd a.lines)).imp ?_
    rintro ⟨_, j⟩ ⟨_, k⟩ differs _ first _ second
    obtain ⟨_, _, rfl⟩ := Option.map_eq_some_iff.1 first
    obtain ⟨_, _, rfl⟩ := Option.map_eq_some_iff.1 second
    exact fun same => differs (Nat.succ.inj same)
  have looked : a.lineLookup.get? (i + 1) = (markedLines a).lookup (i + 1) :=
    (Table.get?_insertAll keys).trans (Option.or_none ..)
  rw [looked]
  refine Option.ext fun source => ?_
  rw [Table.lookup_eq_some_iff keys, markedLines, List.mem_filterMap, Option.bind_eq_some_iff]
  constructor
  · rintro ⟨⟨line, k⟩, there, made⟩
    obtain ⟨_, marked, same⟩ := Option.map_eq_some_iff.1 made
    obtain ⟨place, rfl⟩ := Prod.mk.inj same
    obtain rfl := Nat.succ.inj place
    exact ⟨line, List.mem_zipIdx_iff_getElem?.1 there, marked⟩
  · rintro ⟨line, there, marked⟩
    exact ⟨(line, i), List.mem_zipIdx_iff_getElem?.2 there, by simp [marked]⟩

/-! ## Loaded lines -/

/-- How many instructions stand on the lines before a place. -/
def carriedBefore (lines : List AssemblyLine) (k : Nat) : Nat :=
  (lines.take k).countP fun line => line.carried?.isSome

/-- The lines that the assembler reads, one for each line of an assembly. -/
def readLines (assembly : Assembly) : List (List Char) :=
  assembly.lines.map fun placed => withoutReturn placed.line.text.toList

theorem address_readLines (assembly : Assembly) (k : Nat) :
    Assembler.address (readLines assembly) k =
      carriedBefore (assembly.lines.map PlacedLine.line) k := by
  rw [Assembler.address, carriedBefore, readLines, ← List.map_take, ← List.map_take,
    List.countP_map, List.countP_map]
  rfl

section Load

variable {assembly : Assembly} {limits : MemoryLimits} {name : String} {program : Program}
  {notices : List Notice}
  (oneLine : ∀ placed ∈ assembly.lines, '\n' ∉ placed.line.text.toList)
  (loaded : (Program.withLimits limits).load name assembly.text Library.empty =
    .ok (program, notices))
include oneLine loaded

/-- The source lines of a loaded assembly are its lines, numbered from one. -/
theorem sources_of_load : program.LineByLine (readLines assembly) ∧
    program.sources.files.keys.head? = some name ∧
    ∀ k : Nat, program.sources.lines[k]? = (readLines assembly)[k]?.map
      fun chars => SourceLine.mk name (k + 1) (String.ofList chars) := by
  rw [Program.load] at loaded
  obtain ⟨sources, expanded, ran⟩ := bind_eq_ok.1 loaded
  obtain ⟨files, numbered⟩ := expand_numbered (ok_of_mapError expanded)
  have texts : Text.lines assembly.text.toList = readLines assembly := by
    have text : assembly.text.toList = (assembly.lines.map fun placed =>
        placed.line.text.toList).flatMap fun t => t ++ ['\n'] := by
      have printed := printed_toList (assembly.lines.map PlacedLine.line)
      rw [List.map_map, List.map_map] at printed
      exact printed
    rw [text, Text.lines_printed (by simpa using oneLine), List.map_map]
    rfl
  obtain ⟨_, _, _, _, _, _, _, rfl, _⟩ := Assembler.drafted_of_run ran
  refine ⟨?_, files, fun k => ?_⟩
  · rw [← texts, ← expand_lines (ok_of_mapError expanded)]
    exact lineByLine_of_run ran
  · rw [← Array.getElem?_toList, numbered, SourceSet.numbered, texts, List.getElem?_map,
      List.getElem?_map, List.getElem?_zipIdx, Nat.zero_add, Option.map_map, Option.map_map]
    rfl

/-- **Every instruction is located at the line that carries it.** -/
theorem location_of_load {k : Nat} {placed : PlacedLine} {opcode : Opcode}
    {operands : List (List Char)} (there : assembly.lines[k]? = some placed)
    (carried : placed.line.carried? = some (opcode, operands)) :
    (∃ operand, program.code[carriedBefore (assembly.lines.map PlacedLine.line) k]? =
      some ⟨opcode, operand⟩) ∧
    { program with lineLookup := assembly.lineLookup }.location?
        (carriedBefore (assembly.lines.map PlacedLine.line) k) =
      some ⟨name, k + 1, placed.source⟩ := by
  obtain ⟨lines, files, numbered⟩ := sources_of_load oneLine loaded
  have read : (readLines assembly)[k]? = some (withoutReturn placed.line.text.toList) := by
    rw [readLines, List.getElem?_map, there, Option.map_some]
  obtain ⟨operand, coded, _⟩ := lines.instruction k _ opcode operands read carried
  have line : program.codeLines[Assembler.address (readLines assembly) k]? = some k :=
    (lines.codeLines _ k).2 ⟨_, read, by rw [Assembler.carries, ← AssemblyLine.carried?, carried]; rfl,
      rfl⟩
  rw [← address_readLines]
  refine ⟨⟨operand, coded⟩, ?_⟩
  simp only [Program.location?, Program.sourceLine?, line, numbered k, read, files,
    get?_lineLookup, there, Option.bind_eq_bind, Option.bind_some, Option.map_some, if_true]
  rfl

/-- Every instruction is carried by a line. -/
theorem carried_of_load {a : Nat} (inside : a < program.code.length) :
    ∃ k placed, assembly.lines[k]? = some placed ∧ placed.line.carried?.isSome = true ∧
      carriedBefore (assembly.lines.map PlacedLine.line) k = a := by
  obtain ⟨lines, _⟩ := sources_of_load oneLine loaded
  have stated : a < (Assembler.statementsOf (readLines assembly)).length := by
    rwa [Assembler.length_statementsOf, Assembler.address, List.take_length, ← lines.length]
  obtain ⟨s, found⟩ : ∃ s, (Assembler.statementsOf (readLines assembly))[a]? = some s :=
    ⟨_, List.getElem?_eq_getElem stated⟩
  obtain ⟨line, read, carried, rfl⟩ := Assembler.getElem?_statementsOf.1 found
  rw [readLines, List.getElem?_map, Option.map_eq_some_iff] at read
  obtain ⟨placed, there, rfl⟩ := read
  exact ⟨_, placed, there, Option.isSome_iff_exists.2 ⟨_, carried⟩,
    (address_readLines assembly _).symm⟩

end Load

/-! ## Sources -/

/-- The lines before the code carry nothing. -/
theorem carriedBefore_append {before after : List AssemblyLine}
    (passive : ∀ line ∈ before, line.carried? = none) (j : Nat) :
    carriedBefore (before ++ after) (before.length + j) = carriedBefore after j := by
  rw [carriedBefore, List.take_length_add_append, List.countP_append,
    List.countP_eq_zero.2 fun line there => by rw [passive line there]; exact Bool.false_ne_true,
    Nat.zero_add, carriedBefore]

/-- Code whose instructions make a program, each of them located at the line that its own
line of code is marked with.  The first line of the code has so many lines before it. -/
structure Located (program : Program) (file : String) (before : Nat)
    (emitted : List EmittedLine) : Prop where
  /-- Every instruction is that of a line of the code. -/
  covers : ∀ a < program.code.length, ∃ j e, emitted[j]? = some e ∧ e.line.carried?.isSome = true ∧
    carriedBefore (emitted.map EmittedLine.line) j = a
  located : ∀ j e opcode operands, emitted[j]? = some e →
    e.line.carried? = some (opcode, operands) →
      (∃ operand, program.code[carriedBefore (emitted.map EmittedLine.line) j]? =
        some ⟨opcode, operand⟩) ∧
      program.location? (carriedBefore (emitted.map EmittedLine.line) j) =
        some ⟨file, before + j + 1, some e.purpose.line⟩

/-- Without assembly text no line of an assembled source goes on over several lines. -/
theorem one_line_of_load {source : String} {items : List Item} {assembly : Assembly}
    (parsed : parse source = .ok items) (noAssembly : ∀ item ∈ items, item.hasAssembly = false)
    (compiled : compile source = .ok assembly) {limits : MemoryLimits} {name : String}
    {program : Program} {notices : List Notice}
    (loaded : (Program.withLimits limits).load name assembly.text Library.empty =
      .ok (program, notices)) :
    ∀ placed ∈ assembly.lines, '\n' ∉ placed.line.text.toList := by
  obtain ⟨declared, code, pool, compilation, lines⟩ :=
    compilation_of_compile parsed noAssembly compiled
  rw [text_of_lines lines] at loaded
  obtain ⟨oneLine, _⟩ := readsAll_of_load compilation.neat compilation.breaks loaded
  exact fun placed there => oneLine _ (List.mem_map_of_mem (lines ▸ there))

/-- **Every instruction of a loaded source is located at the line of the source at which
the statement starts that it is there for**, unless an assembly text goes on over several
lines. -/
theorem located_of_compile {source : String} {items : List Item} {assembly : Assembly}
    (parsed : parse source = .ok items) (compiled : compile source = .ok assembly)
    (oneLine : (∃ item ∈ items, item.hasAssembly = true) →
      ∀ placed ∈ assembly.lines, '\n' ∉ placed.line.text.toList)
    {limits : MemoryLimits} {name : String} {program : Program} {notices : List Notice}
    (loaded : (Program.withLimits limits).load name assembly.text Library.empty =
      .ok (program, notices)) :
    ∃ declared before emitted, EmitsProgram (mainSetting source declared) items emitted ∧
      (∀ placed ∈ before, placed.line.isDeclaration = true) ∧
      assembly.lines = before ++ emitted.map EmittedLine.placed ∧
      Located { program with lineLookup := assembly.lineLookup } name before.length emitted := by
  obtain ⟨declared, code, pool, translation, lines⟩ := translation_of_compile parsed compiled
  obtain ⟨emitted, emits, rfl⟩ := translation.emits
  refine ⟨declared, _, emitted, emits, translation.declares, lines, ?_⟩
  generalize before' : pool.declarations ++ scratchCells pool.scratch = before at lines ⊢
  have declares : ∀ placed ∈ before, placed.line.isDeclaration = true :=
    before' ▸ translation.declares
  have oneLine' : ∀ placed ∈ assembly.lines, '\n' ∉ placed.line.text.toList := by
    by_cases plain : ∀ item ∈ items, item.hasAssembly = false
    · exact one_line_of_load parsed plain compiled loaded
    · refine oneLine ?_
      simpa using plain
  have carried : ∀ j, carriedBefore (assembly.lines.map PlacedLine.line) (before.length + j) =
      carriedBefore (emitted.map EmittedLine.line) j := by
    intro j
    have passive : ∀ line ∈ before.map PlacedLine.line, line.carried? = none := by
      simpa using fun placed there => carried?_of_isDeclaration (declares placed there)
    have appended := @carriedBefore_append _ (emitted.map EmittedLine.line) passive j
    rw [List.length_map] at appended
    rw [lines, List.map_append, List.map_map, ← appended]
    rfl
  have inCode : ∀ {j : Nat} {e : EmittedLine}, emitted[j]? = some e →
      assembly.lines[before.length + j]? = some e.placed := by
    intro j e there
    rw [lines, List.getElem?_append_right (Nat.le_add_right _ _), Nat.add_sub_cancel_left,
      List.getElem?_map, there, Option.map_some]
  refine ⟨fun a inside => ?_, fun j e opcode operands there carries => ?_⟩
  · obtain ⟨k, placed, there, carries, rfl⟩ := carried_of_load oneLine' loaded inside
    have behind : before.length ≤ k := by
      refine Nat.le_of_not_lt fun within => ?_
      rw [lines, List.getElem?_append_left within] at there
      rw [carried?_of_isDeclaration (declares _ (List.mem_of_getElem? there))] at carries
      exact Bool.false_ne_true carries
    obtain ⟨j, rfl⟩ := Nat.exists_eq_add_of_le behind
    rw [lines, List.getElem?_append_right behind, Nat.add_sub_cancel_left, List.getElem?_map,
      Option.map_eq_some_iff] at there
    obtain ⟨e, known, rfl⟩ := there
    exact ⟨j, e, known, carries, (carried j).symm⟩
  · rw [← carried]
    exact location_of_load oneLine' loaded (inCode there) carries

/-- A source that is compiled and assembled, to a program as given. -/
def locates (source : String) (property : List Item → Assembly → Program → Bool) : Bool :=
  (do
    let items ← (parse source).toOption
    let assembly ← (compile source).toOption
    let (program, _) ← ((Program.withLimits {}).load "main.pp" assembly.text Library.empty).toOption
    return property items assembly program).getD false

theorem exists_of_locates {source : String} {property : List Item → Assembly → Program → Bool}
    (accepted : locates source property = true) :
    ∃ (items : List Item) (assembly : Assembly) (program : Program) (notices : List Notice),
      parse source = .ok items ∧ compile source = .ok assembly ∧
      (Program.withLimits {}).load "main.pp" assembly.text Library.empty = .ok (program, notices) ∧
      property items assembly program = true := by
  have some' := (Option.getD_eq_iff.1 accepted).resolve_right fun none' => Bool.noConfusion none'.2
  obtain ⟨items, parsed, some'⟩ := Option.bind_eq_some_iff.1 some'
  obtain ⟨assembly, compiled, some'⟩ := Option.bind_eq_some_iff.1 some'
  obtain ⟨⟨program, notices⟩, loaded, some'⟩ := Option.bind_eq_some_iff.1 some'
  exact ⟨items, assembly, program, notices, ok_of_toOption parsed, ok_of_toOption compiled,
    ok_of_toOption loaded, Option.some.inj some'⟩

/-- Two conditions, and an instruction of the assembler between them. -/
def branching : String := "var x\nvar y\nif x == y:\n  NOP\nelif y == x:\n  NOP\n"

/-- How the second condition is compiled and located. -/
def secondCondition (items : List Item) (assembly : Assembly) (program : Program) : Bool :=
  match statements items with
  | [.cond position [_, second] []] => decide (
      (∀ placed ∈ assembly.lines, '\n' ∉ placed.line.text.toList) ∧
      ((SourceMap.ofSource branching).position second.1.start).line = 5 ∧ position.line = 3 ∧
      program.code[6]? = some ⟨.cmpequal, 0⟩ ∧
      { program with lineLookup := assembly.lineLookup }.location? 6 =
        some ⟨"main.pp", 10, some 3⟩)
  | _ => false

theorem accepted_branching : ∃ (items : List Item) (assembly : Assembly) (program : Program)
    (notices : List Notice) (position : Position) (first second : SourceFormula × List Statement),
    parse branching = .ok items ∧ compile branching = .ok assembly ∧
    (Program.withLimits {}).load "main.pp" assembly.text Library.empty = .ok (program, notices) ∧
    statements items = [.cond position [first, second] []] ∧
    (∀ placed ∈ assembly.lines, '\n' ∉ placed.line.text.toList) ∧
    ((SourceMap.ofSource branching).position second.1.start).line = 5 ∧ position.line = 3 ∧
    program.code[6]? = some ⟨.cmpequal, 0⟩ ∧
    { program with lineLookup := assembly.lineLookup }.location? 6 =
      some ⟨"main.pp", 10, some 3⟩ := by
  have accepted : locates branching secondCondition = true := by decide +kernel
  obtain ⟨items, assembly, program, notices, parsed, compiled, loaded, holds⟩ :=
    exists_of_locates accepted
  rw [secondCondition] at holds
  split at holds
  · rename_i position first second shape
    exact ⟨items, assembly, program, notices, position, first, second, parsed, compiled, loaded,
      shape, of_decide_eq_true holds⟩
  · cases holds

theorem located_of_compile_branching : ∃ (items : List Item) (assembly : Assembly)
    (program : Program) (notices : List Notice),
    parse branching = .ok items ∧ compile branching = .ok assembly ∧
    (∀ placed ∈ assembly.lines, '\n' ∉ placed.line.text.toList) ∧
    (Program.withLimits {}).load "main.pp" assembly.text Library.empty = .ok (program, notices) ∧
    ∃ declared before emitted, EmitsProgram (mainSetting branching declared) items emitted ∧
      (∀ placed ∈ before, placed.line.isDeclaration = true) ∧
      assembly.lines = before ++ emitted.map EmittedLine.placed ∧
      Located { program with lineLookup := assembly.lineLookup } "main.pp" before.length
        emitted := by
  obtain ⟨items, assembly, program, notices, _, _, _, parsed, compiled, loaded, _, oneLine, _⟩ :=
    accepted_branching
  exact ⟨items, assembly, program, notices, parsed, compiled, oneLine, loaded,
    located_of_compile parsed compiled (fun _ => oneLine) loaded⟩

/-- The instruction that tests the condition in line 5 is located at line 3. -/
theorem location_of_elif : ∃ (items : List Item) (assembly : Assembly) (program : Program)
    (notices : List Notice) (position : Position) (first second : SourceFormula × List Statement),
    parse branching = .ok items ∧ compile branching = .ok assembly ∧
    (Program.withLimits {}).load "main.pp" assembly.text Library.empty = .ok (program, notices) ∧
    statements items = [.cond position [first, second] []] ∧
    ((SourceMap.ofSource branching).position second.1.start).line = 5 ∧
    program.code[6]? = some ⟨.cmpequal, 0⟩ ∧
    { program with lineLookup := assembly.lineLookup }.location? 6 =
      some ⟨"main.pp", 10, some 3⟩ := by
  obtain ⟨items, assembly, program, notices, position, first, second, parsed, compiled, loaded,
    shape, _, starts, _, coded, located⟩ := accepted_branching
  exact ⟨items, assembly, program, notices, position, first, second, parsed, compiled, loaded,
    shape, starts, coded, located⟩

end PulseSequencer.Ppp
