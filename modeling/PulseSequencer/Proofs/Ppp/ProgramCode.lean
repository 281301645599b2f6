import PulseSequencer.Proofs.Ppp.CallCode
import PulseSequencer.Proofs.Ppp.Declaring

/-
# PulseSequencer.Proofs.Ppp.ProgramCode -- the code of every procedure and of every call

The names of a program stand for what its items declare (`Declared.Stands`), also in the
body of a procedure (`context_procedure`).  The assembly of a program has the code of each
procedure, from its label to a return, and of each call (`codeOf_of_compile`).
-/

namespace PulseSequencer.Ppp

open Setting

set_option autoImplicit false

/-! ## What names stand for -/

/-- A variable takes its name. -/
theorem scope_of_declareVariable {d next : Declared} {v : Declaration} {value : Option Value}
    {slot : Nat} (declared : d.declareVariable v value slot = .ok next) :
    d.scope.define v.name (.cell v.kind slot v.name) = .ok next.scope := by
  obtain ⟨_, _, declared⟩ := bind_eq_ok.1 declared
  have defined : ∃ d', d.define v.position v.name (.cell v.kind slot v.name)
      (Declared.taken v.name) = .ok d' ∧ next.scope = d'.scope := by
    dsimp only at declared
    split at declared
    · obtain ⟨_, _, declared⟩ := bind_eq_ok.1 declared
      obtain ⟨d', defined, result⟩ := bind_eq_ok.1 declared
      exact ⟨d', defined, by rw [← Except.ok.inj result]; rfl⟩
    · obtain ⟨d', defined, result⟩ := bind_eq_ok.1 declared
      exact ⟨d', defined, by rw [← Except.ok.inj result]; rfl⟩
  obtain ⟨d', defined, same⟩ := defined
  obtain ⟨scope, taken, rfl⟩ := scope_of_declaredDefine defined
  rw [same]
  exact taken

theorem scope_of_declareConstant {d next : Declared} {v : Declaration} {source : SourceFormula}
    {value : Value} {slot : Nat} (declared : d.declareConstant v source value slot = .ok next) :
    d.scope.define v.name (.constant value slot) = .ok next.scope := by
  obtain ⟨d', defined, result⟩ := bind_eq_ok.1 declared
  obtain ⟨scope, taken, rfl⟩ := scope_of_declaredDefine defined
  rw [← Except.ok.inj result]
  exact taken

/-- What an item makes its name stand for. -/
inductive Names : Item → String → Symbol → Prop
  | cell {v : Declaration} {kind : DeclarationKind} {slot : Nat} :
      Names (.declaration v) v.name (.cell kind slot v.name)
  | constant {v : Declaration} {value : Value} {slot : Nat} :
      Names (.declaration v) v.name (.constant value slot)
  | procedure {p : Procedure} : Names (.procedure p) p.name (.procedure (Declared.cells p))

/-- **An item takes one name at most**, which was free. -/
theorem names_of_item {map : SourceMap} {d next : Declared} {item : Item}
    (declared : Declared.item map d item = .ok next) :
    next.scope.outer = d.scope.outer ∧
      (next.scope.symbols = d.scope.symbols ∧ (∃ s, item = .statement s) ∨
        ∃ name symbol, Names item name symbol ∧ d.scope.symbols.get? name = none ∧
          next.scope.symbols = d.scope.symbols.insert name symbol) := by
  have taken : ∀ {scope : Scope} {name : String} {symbol : Symbol},
      scope.define name symbol = .ok next.scope → scope.symbols = d.scope.symbols →
      scope.outer = d.scope.outer → Names item name symbol →
        next.scope.outer = d.scope.outer ∧
          (next.scope.symbols = d.scope.symbols ∧ (∃ s, item = .statement s) ∨
            ∃ name symbol, Names item name symbol ∧ d.scope.symbols.get? name = none ∧
              next.scope.symbols = d.scope.symbols.insert name symbol) := by
    intro scope name symbol defined symbols outer names
    obtain ⟨free, here⟩ := scope_of_define defined
    rw [here]
    exact ⟨outer, .inr ⟨name, symbol, names, symbols ▸ free, by rw [← symbols]⟩⟩
  cases item with
  | statement s =>
      obtain rfl := Except.ok.inj declared
      exact ⟨rfl, .inl ⟨rfl, s, rfl⟩⟩
  | procedure p =>
      rw [Declared.item, Declared.declareProcedure] at declared
      obtain ⟨scope, defined, rfl⟩ := scope_of_declaredDefine declared
      exact taken defined rfl rfl .procedure
  | declaration v =>
      rw [Declared.item, Declared.declare] at declared
      obtain ⟨value, _, declared⟩ := bind_eq_ok.1 declared
      dsimp only at declared
      split at declared
      · split at declared
        · exact taken (scope_of_declareConstant declared) rfl rfl .constant
        · cases declared
      · exact taken (scope_of_declareVariable declared) rfl rfl .cell

/-- What the names of a program stand for. -/
structure Declared.Stands (d : Declared) (items : List Item) : Prop where
  outer : d.scope.outer = Scope.program.outer
  symbol : ∀ name symbol, d.scope.symbols.get? name = some symbol →
    ∃ item ∈ items, Names item name symbol
  procedure : ∀ p, .procedure p ∈ items →
    d.scope.symbols.get? p.name = some (.procedure (Declared.cells p))

theorem symbols_of_items {map : SourceMap} {items : List Item} {declared : Declared}
    (established : items.foldlM (Declared.item map) {} = .ok declared) :
    declared.scope.outer = Scope.program.outer ∧
      ∀ name symbol, declared.scope.symbols.get? name = some symbol →
        ∃ item ∈ items, Names item name symbol := by
  refine foldlM_induct (P := fun d => d.scope.outer = Scope.program.outer ∧
    ∀ name symbol, d.scope.symbols.get? name = some symbol → ∃ item ∈ items, Names item name symbol)
    ⟨rfl, fun _ _ found => by cases found⟩ (fun d item there ⟨outer', stands⟩ next step => ?_)
    established
  obtain ⟨outer, ⟨symbols, _⟩ | ⟨name, symbol, names, _, symbols⟩⟩ := names_of_item step
  · exact ⟨outer.trans outer', fun name symbol found => stands name symbol (symbols ▸ found)⟩
  · refine ⟨outer.trans outer', fun other found' found => ?_⟩
    rw [symbols, Table.get?_insert] at found
    split at found
    · rename_i same
      subst same
      obtain rfl := Option.some.inj found
      exact ⟨item, there, names⟩
    · exact stands other found' found

theorem keeps_of_item {map : SourceMap} {d next : Declared} {item : Item}
    (declared : Declared.item map d item = .ok next) : d.scope.Keeps next.scope := by
  intro other symbol' found
  obtain ⟨_, ⟨symbols, _⟩ | ⟨name, symbol, _, free, symbols⟩⟩ := names_of_item declared
  · rwa [symbols]
  · rw [symbols, Table.get?_insert, if_neg, found]
    rintro rfl
    exact Option.some_ne_none _ (found.symm.trans free)

/-- A procedure is what its name stands for. -/
theorem defined_of_items {map : SourceMap} : ∀ {items : List Item} {d declared : Declared},
    items.foldlM (Declared.item map) d = .ok declared →
      d.scope.Keeps declared.scope ∧ ∀ p, .procedure p ∈ items →
        declared.scope.symbols.get? p.name = some (.procedure (Declared.cells p))
  | [], d, declared, established => by
      obtain rfl := Except.ok.inj established
      exact ⟨fun _ _ found => found, fun p there => absurd there List.not_mem_nil⟩
  | item :: rest, d, declared, established => by
      rw [List.foldlM_cons] at established
      obtain ⟨next, here, onward⟩ := bind_eq_ok.1 established
      obtain ⟨keeps, all⟩ := defined_of_items onward
      have kept := keeps_of_item here
      refine ⟨fun name symbol found => keeps name symbol (kept name symbol found),
        fun p there => ?_⟩
      rcases List.mem_cons.1 there with rfl | later
      · obtain ⟨_, ⟨_, s, same⟩ | ⟨name, symbol, names, _, symbols⟩⟩ := names_of_item here
        · cases same
        · cases names
          exact keeps _ _ (by rw [symbols, Table.get?_insert, if_pos rfl])
      · exact all p later

theorem stands_of_items {map : SourceMap} {items : List Item} {declared : Declared}
    (established : items.foldlM (Declared.item map) {} = .ok declared) :
    declared.Stands items := by
  obtain ⟨outer, symbol⟩ := symbols_of_items established
  exact ⟨outer, symbol, (defined_of_items established).2⟩

/-- What names stand for in the main program, or in the body of the procedure `owner`. -/
structure Context (items : List Item) (owner : Option Procedure) (scope : Scope) : Prop where
  cell : ∀ cell, IsCell scope cell → (∃ v, .declaration v ∈ items ∧ v.name = cell) ∨
    ∃ q, owner = some q ∧ cell ∈ Declared.cells q
  procedure : ∀ name cells, scope.lookup name = some (.procedure cells) →
    ∃ q, .procedure q ∈ items ∧ q.name = name ∧ cells = Declared.cells q
  predefines : Predefines scope
  known : ∀ p, .procedure p ∈ items → OfProgram scope p.name

section Contexts

variable {items : List Item} {declared : Declared}

/-- What a name stands for in the main program. -/
theorem Declared.Stands.lookup (stands : declared.Stands items) {name : String} {symbol : Symbol}
    (found : Scope.lookupOuter (declared.scope.symbols :: declared.scope.outer) name =
      some symbol) :
    (∃ item ∈ items, Names item name symbol) ∨ ∃ b ∈ Builtin.all, symbol = .builtin b := by
  rw [Scope.lookupOuter, List.findSome?_cons] at found
  split at found
  · rename_i own
    obtain rfl := Option.some.inj found
    exact .inl (stands.symbol name _ own)
  · exact .inr (builtin_of_outer stands.outer found)

theorem context_program (stands : declared.Stands items) : Context items none declared.scope where
  cell cell is := by
    obtain ⟨name, kind, slot, found⟩ := is
    rcases stands.lookup found with ⟨item, there, names⟩ | ⟨b, _, same⟩
    · cases names with
      | cell => exact .inl ⟨_, there, rfl⟩
    · cases same
  procedure name cells found := by
    rcases stands.lookup found with ⟨item, there, names⟩ | ⟨b, _, same⟩
    · cases names with
      | procedure => exact ⟨_, there, rfl, rfl⟩
    · cases same
  predefines name b found := by
    rcases stands.lookup found with ⟨item, there, names⟩ | ⟨b', known, same⟩
    · cases names
    · obtain rfl := Symbol.builtin.inj same
      exact known
  known p there := ⟨_, lookup_of_symbols (stands.procedure p there), by simp⟩

/-- Parameters come in as cells of the procedure. -/
theorem parameterScope_symbols {p : Procedure} : ∀ {parameters : List String} {scope next : Scope},
    parameterScope p scope parameters = .ok next → next.outer = scope.outer ∧
      ∀ name symbol, next.symbols.get? name = some symbol →
        scope.symbols.get? name = some symbol ∨
          ∃ parameter ∈ parameters, ∃ slot,
            symbol = .cell .var slot (Declared.parameterCell p.name parameter)
  | [], scope, next, made => by
      obtain rfl := Except.ok.inj made
      exact ⟨rfl, fun _ _ found => .inl found⟩
  | parameter :: rest, scope, next, made => by
      rw [parameterScope] at made
      dsimp only at made
      split at made
      · rename_i middle defined
        obtain ⟨_, rfl⟩ := scope_of_define defined
        obtain ⟨outer, symbols⟩ := parameterScope_symbols made
        refine ⟨outer, fun name symbol found => ?_⟩
        rcases symbols name symbol found with old | ⟨other, later, slot, same⟩
        · rw [Table.get?_insert] at old
          split at old
          · exact .inr ⟨parameter, List.mem_cons_self .., _, (Option.some.inj old).symm⟩
          · exact .inl old
        · exact .inr ⟨other, List.mem_cons_of_mem _ later, slot, same⟩
      · cases made

theorem context_procedure (stands : declared.Stands items) {p : Procedure} {scope : Scope}
    (made : parameterScope p declared.scope.child p.parameters = .ok scope) :
    Context items (some p) scope := by
  obtain ⟨outer, symbols⟩ := parameterScope_symbols made
  have lookup : ∀ {name : String} {symbol : Symbol}, scope.lookup name = some symbol →
      (∃ slot, ∃ cell ∈ Declared.cells p, symbol = .cell .var slot cell) ∨
        (∃ item ∈ items, Names item name symbol) ∨ ∃ b ∈ Builtin.all, symbol = .builtin b := by
    intro name symbol found
    rw [Scope.lookup, Scope.lookupOuter, List.findSome?_cons] at found
    split at found
    · rename_i own
      obtain rfl := Option.some.inj found
      rcases symbols name _ own with none' | ⟨parameter, there, slot, same⟩
      · cases none'
      · exact .inl ⟨slot, _, List.mem_map.2 ⟨parameter, there, rfl⟩, same⟩
    · rw [outer] at found
      exact .inr (stands.lookup found)
  refine ⟨fun cell is => ?_, fun name cells found => ?_, fun name b found => ?_,
    fun q there => ?_⟩
  · obtain ⟨name, kind, slot, found⟩ := is
    rcases lookup found with ⟨_, cell', there, same⟩ | ⟨item, there, names⟩ | ⟨b, _, same⟩
    · obtain ⟨_, _, rfl⟩ := Symbol.cell.inj same
      exact .inr ⟨p, rfl, there⟩
    · cases names with
      | cell => exact .inl ⟨_, there, rfl⟩
    · cases same
  · rcases lookup found with ⟨_, _, _, same⟩ | ⟨item, there, names⟩ | ⟨b, _, same⟩
    · cases same
    · cases names with
      | procedure => exact ⟨_, there, rfl, rfl⟩
    · cases same
  · rcases lookup found with ⟨_, _, _, same⟩ | ⟨item, there, names⟩ | ⟨b', known, same⟩
    · cases same
    · cases names
    · obtain rfl := Symbol.builtin.inj same
      exact known
  · cases own : scope.symbols.get? q.name with
    | some symbol =>
        rcases symbols q.name symbol own with none' | ⟨_, _, _, rfl⟩
        · cases none'
        · exact ⟨_, lookup_of_symbols own, by simp⟩
    | none =>
        refine ⟨.procedure (Declared.cells q), ?_, by simp⟩
        rw [Scope.lookup, Scope.lookupOuter, List.findSome?_cons, own, outer]
        exact lookup_of_symbols (stands.procedure q there)

end Contexts

/-! ## Where code stands -/

theorem placed_of_infix {code lines : List AssemblyLine} (inside : code <:+: lines) :
    ∃ start, Placed lines start code := by
  obtain ⟨before, after, rfl⟩ := inside
  exact ⟨before.length, before, after, rfl, rfl⟩

theorem Placed.getElem?_add {lines code : List AssemblyLine} {start : Nat}
    (placed : Placed lines start code) (i : Nat) (below : i < code.length) :
    lines[start + i]? = code[i]? := by
  obtain ⟨before, after, rfl, rfl⟩ := placed
  rw [List.append_assoc, List.getElem?_append_right (Nat.le_add_right ..), Nat.add_sub_cancel_left,
    List.getElem?_append_left below]

theorem Placed.labels {lines code : List AssemblyLine} {start : Nat}
    (placed : Placed lines start code) (distinct : (labelNames lines).Nodup) {label : String}
    (there : label ∈ labelNames code) {j : Nat} (target : labelPlace? lines label = some j) :
    start ≤ j ∧ j < start + code.length := by
  obtain ⟨i, below, found⟩ := List.mem_iff_getElem.1 (mem_labelNames.1 there)
  have here : lines[start + i]? = some (.label label) := by
    rw [placed.getElem?_add i below, List.getElem?_eq_getElem below, found]
  obtain rfl := Option.some.inj (target.symm.trans (findIdx?_label distinct here))
  omega

/-- Code with a label in front and a return behind it. -/
structure ProcedureCode (items : List Item) (q : Procedure) (code : List AssemblyLine) : Prop where
  label : q.name ∈ labelNames code
  last : code.getLast? = some (.instruction .jmppop [])
  codes : ∃ scope, Context items (some q) scope ∧
    Codes scope q.name (blockSites q.body) [] (blockAssembly q.body = true) code

section Procedures

variable {items : List Item} {declared : Declared} {s : Setting}

/-- A block that ends with a return ends with JMPPOP. -/
theorem getLast?_block {position : Position} {value : Option SourceFormula} :
    ∀ {statements : List Statement} {p q : Pool} {code : List PlacedLine},
    Made (s.block statements) p code q → statements.getLast? = some (.return position value) →
      (code.map PlacedLine.line).getLast? = some (.instruction .jmppop [])
  | [], _, _, _, _, last => by cases last
  | [only], p, q, code, made, last => by
      obtain rfl := Option.some.inj last
      simp only [Setting.block, made_bind, made_pure, Setting.statement, made_get] at made
      obtain ⟨_, _, ⟨_, _, ⟨rfl, rfl⟩, lines, _, left, _, _, _, rfl, _⟩, _, _, ⟨rfl, _⟩, rfl, _⟩ :=
        made
      rw [List.append_nil, placed_lines]
      unfold leave at left
      split at left
      · exact absurd left not_made_throw
      · cases value with
        | none =>
            simp only [made_bind, made_pure] at left
            obtain ⟨_, _, _, rfl, _⟩ := left
            simp
        | some value =>
            simp only [made_bind, made_pure] at left
            obtain ⟨_, _, _, rfl, _⟩ := left
            simp
  | first :: second :: rest, p, q, code, made, last => by
      rw [Setting.block] at made
      simp only [made_bind, made_pure] at made
      obtain ⟨head, _, _, tail, _, there, rfl, _⟩ := made
      have ends := getLast?_block there (by simpa using last)
      rw [List.map_append, List.getLast?_append, ends]
      rfl

theorem procedureCode_of_made (stands : declared.Stands items) (scope : s.scope = declared.scope)
    {q : Procedure} {a b : Pool} {code : List PlacedLine} (made : Made (procedureCode s q) a code b) :
    ProcedureCode items q (code.map PlacedLine.line) := by
  simp only [procedureCode, made_bind, made_pure, made_liftM] at made
  obtain ⟨inner, _, ⟨parameters, rfl⟩, body, _, block, rfl, _⟩ := made
  rw [scope] at parameters
  have context := context_procedure stands parameters
  have codes := codes_block { s with scope := inner, procedure := q.name } context.predefines q.body
    block
  have mark : Codes inner q.name [] [] False [.label q.name] := codes_label
  have back : ∀ line, Codes inner q.name [] [] False
      ((placed line [.instruction .jmppop []]).map PlacedLine.line) := fun line =>
    codes_of_flows fun line there => by
      rw [placed_lines] at there
      rw [List.mem_singleton.1 there]
      exact .back
  have begun : Codes inner q.name (blockSites q.body) [] (blockAssembly q.body = true)
      ([.label q.name] ++ body.map PlacedLine.line) :=
    mark.append codes (by simp) (by simp) (by simp) (by simp)
  refine ⟨by simp [labelNames, placed], ?_, inner, context, ?_⟩
  · split
    · rename_i last
      have ends := getLast?_block block last
      rw [List.append_nil, List.map_append, List.getLast?_append, ends]
      rfl
    all_goals
      rw [List.map_append, List.getLast?_append, placed_lines]
      rfl
  · rw [List.map_append, List.map_append, placed_lines]
    split
    · rwa [List.map_nil, List.append_nil]
    · exact begun.append (back _) (by simp) (by simp) (by simp) (by simp)
    · exact begun.append (back _) (by simp) (by simp) (by simp) (by simp)

theorem procedureCode_infix (stands : declared.Stands items) (scope : s.scope = declared.scope) :
    ∀ {procedures : List Procedure} {a b : Pool} {code : List PlacedLine},
    Made (proceduresCode s procedures) a code b → ∀ q ∈ procedures, ∃ own,
      ProcedureCode items q own ∧ own <:+: code.map PlacedLine.line
  | [], _, _, _, _, q, there => absurd there List.not_mem_nil
  | first :: rest, a, b, code, made, q, there => by
      rw [proceduresCode] at made
      simp only [made_bind, made_pure] at made
      obtain ⟨head, _, here, tail, _, onward, rfl, _⟩ := made
      rw [List.map_append]
      rcases List.mem_cons.1 there with rfl | later
      · exact ⟨_, procedureCode_of_made stands scope here, (List.prefix_append _ _).isInfix⟩
      · obtain ⟨own, procedure, inside⟩ := procedureCode_infix stands scope onward q later
        exact ⟨own, procedure, inside.trans (List.suffix_append _ _).isInfix⟩

end Procedures

/-! ## Programs -/

/-- The calls of a program. -/
def programSites (items : List Item) : List Site :=
  blockSites (items.filterMap Item.statement?) ++
    (items.filterMap Item.procedure?).flatMap fun q => blockSites q.body

theorem mem_procedures {items : List Item} {q : Procedure} :
    q ∈ items.filterMap Item.procedure? ↔ .procedure q ∈ items := by
  rw [List.mem_filterMap]
  constructor
  · rintro ⟨item, there, same⟩
    cases item <;> cases same
    exact there
  · exact fun there => ⟨_, there, rfl⟩

/-- The code of a program: that of every procedure and that of every call. -/
structure CodeOf (items : List Item) (lines : List AssemblyLine) : Prop where
  procedure : ∀ q, .procedure q ∈ items → ∃ start own, ProcedureCode items q own ∧
    Placed lines start own
  cells : ∀ p, .procedure p ∈ items → ∀ q, .procedure q ∈ items → q.name = p.name →
    Declared.cells q = Declared.cells p
  site : ∀ site ∈ programSites items, ∀ p, .procedure p ∈ items → site.name = p.name →
    ∃ owner context scope loads start, Context items context scope ∧
      (∀ q, context = some q → .procedure q ∈ items ∧ site ∈ blockSites q.body) ∧
      (Declared.cells p).length = site.arguments.length ∧
      List.Forall₂ (LoadOf scope owner) site.arguments loads ∧
      Placed lines start (callLines p.name (Declared.cells p) loads)

/-- **The code of every procedure and of every call is in the assembly.** -/
theorem codeOf_of_compile {source : String} {items : List Item} {assembly : Assembly}
    (parsed : parse source = .ok items) (compiled : compile source = .ok assembly) :
    CodeOf items (assembly.lines.map PlacedLine.line) := by
  rw [compile] at compiled
  obtain ⟨items', parsed', generated⟩ := bind_eq_ok.1 compiled
  obtain rfl := Except.ok.inj (parsed.symm.trans parsed')
  rw [generate] at generated
  obtain ⟨declared, established, generated⟩ := bind_eq_ok.1 generated
  obtain ⟨⟨code, pool⟩, made, result⟩ := bind_eq_ok.1 generated
  obtain rfl := Except.ok.inj result
  have stands := stands_of_items established
  obtain ⟨_, defined⟩ := defined_of_items established
  have made : Made (programCode (SourceMap.ofSource source) declared items)
    { declarations := declared.lines } code pool := made
  simp only [programCode, made_bind, made_pure] at made
  obtain ⟨main, _, onMain, procedures, _, onProcedures, rfl, _⟩ := made
  generalize lines_eq : (pool.declarations ++ scratchCells pool.scratch ++
    (main ++ mainEnd items main ++ procedures)).map PlacedLine.line = lines
  have mainInside : main.map PlacedLine.line <:+: lines := by
    rw [← lines_eq]
    exact ⟨(pool.declarations ++ scratchCells pool.scratch).map PlacedLine.line,
      (mainEnd items main ++ procedures).map PlacedLine.line, by simp⟩
  have proceduresInside : procedures.map PlacedLine.line <:+: lines := by
    rw [← lines_eq]
    exact ⟨(pool.declarations ++ scratchCells pool.scratch ++ (main ++ mainEnd items main)).map
      PlacedLine.line, [], by simp⟩
  have same : ∀ p, .procedure p ∈ items → ∀ q, .procedure q ∈ items → q.name = p.name →
      Declared.cells q = Declared.cells p := by
    intro p there q there' named
    have found := stands.procedure q there'
    rw [named, stands.procedure p there] at found
    exact (Symbol.procedure.inj (Option.some.inj found)).symm
  have located : ∀ {owner : String} {context : Option Procedure} {scope : Scope} {site : Site}
      {code : List AssemblyLine} {p : Procedure}, Context items context scope →
      HasCall scope owner site code → code <:+: lines → .procedure p ∈ items → site.name = p.name →
      (∀ q, context = some q → .procedure q ∈ items ∧ site ∈ blockSites q.body) →
        ∃ owner context scope loads start, Context items context scope ∧
          (∀ q, context = some q → .procedure q ∈ items ∧ site ∈ blockSites q.body) ∧
          (Declared.cells p).length = site.arguments.length ∧
          List.Forall₂ (LoadOf scope owner) site.arguments loads ∧
          Placed lines start (callLines p.name (Declared.cells p) loads) := by
    intro owner context scope site code p inContext has inside there named within
    obtain ⟨cells, loads, found, size, made, part⟩ := has
    obtain ⟨q, there', named', rfl⟩ := inContext.procedure _ _ found
    rw [same p there q there' (named'.trans named)] at size part
    rw [named] at part
    obtain ⟨start, placed⟩ := placed_of_infix (part.trans inside)
    exact ⟨owner, context, scope, loads, start, inContext, within, size, made, placed⟩
  refine ⟨fun q there => ?_, same, fun site there p procedure named => ?_⟩
  · obtain ⟨own, made, inside⟩ :=
      procedureCode_infix stands rfl onProcedures q (mem_procedures.2 there)
    obtain ⟨start, placed⟩ := placed_of_infix (inside.trans proceduresInside)
    exact ⟨start, own, made, placed⟩
  · rcases List.mem_append.1 there with inMain | inProcedures
    · have context := context_program stands
      have codes := codes_block _ context.predefines _ onMain
      exact located context (codes.calls site inMain (named ▸ context.known p procedure)) mainInside
        procedure named (fun q none' => by cases none')
    · obtain ⟨q, there', inBody⟩ := List.mem_flatMap.1 inProcedures
      obtain ⟨own, made, inside⟩ := procedureCode_infix stands rfl onProcedures q there'
      obtain ⟨scope, context, codes⟩ := made.codes
      refine located context (codes.calls site inBody (named ▸ context.known p procedure))
        (inside.trans proceduresInside) procedure named fun q' same => ?_
      obtain rfl := Option.some.inj same
      exact ⟨mem_procedures.1 there', inBody⟩

end PulseSequencer.Ppp
