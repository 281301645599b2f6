import PulseSequencer.Proofs.Ppp.Growth
import PulseSequencer.Proofs.Ppp.LineMachine
import PulseSequencer.Proofs.Ppp.Scoping
import PulseSequencer.Proofs.Ppp.Values

/-
# PulseSequencer.Proofs.Ppp.Declaring -- what declarations establish

Every declaration of a variable puts a cell into the scope and a line of its own into
the assembly text: `Declared.Sound` holds before the first declaration and behind each
(`Declared.Sound.declare`), so it holds behind all of them (`Declared.Sound.items`).
-/

namespace PulseSequencer.Ppp

set_option autoImplicit false

/-! ## Names of a scope -/

section Scope

variable {scope next : Scope} {name other : String} {symbol found : Symbol}

/-- Around a program there are built-in commands only. -/
theorem builtin_of_outer (around : scope.outer = Scope.program.outer)
    (there : Scope.lookupOuter scope.outer name = some found) :
    ∃ b ∈ Builtin.all, found = .builtin b := by
  rw [around, Scope.lookupOuter] at there
  obtain ⟨symbols, inOuter, got⟩ := List.exists_of_findSome?_eq_some there
  rw [List.mem_singleton.1 inOuter] at got
  obtain ⟨b, known, _, same⟩ := Scope.get?_predefined.1 got
  exact ⟨b, known, same⟩

/-- A name that stands for something other than a command is declared by the program. -/
theorem symbols_of_lookup (around : scope.outer = Scope.program.outer)
    (there : scope.lookup name = some symbol) (ofProgram : ∀ b, symbol ≠ .builtin b) :
    scope.symbols.get? name = some symbol := by
  rw [Scope.lookup, Scope.lookupOuter, List.findSome?_cons] at there
  split at there
  · rename_i here
    rw [here, Option.some.inj there]
  · obtain ⟨b, _, same⟩ := builtin_of_outer around there
    exact absurd same (ofProgram b)

/-- A name can be taken once. -/
theorem scope_of_define (defined : scope.define name symbol = .ok next) :
    scope.symbols.get? name = none ∧
      next = { scope with symbols := scope.symbols.insert name symbol } := by
  obtain ⟨free, _, same⟩ := Scope.define_eq_ok_iff.1 defined
  exact ⟨free, same⟩

/-- What a scope has, it has from then on. -/
def Scope.Keeps (scope next : Scope) : Prop :=
  ∀ name symbol, scope.symbols.get? name = some symbol → next.symbols.get? name = some symbol

theorem keeps_of_define (defined : scope.define name symbol = .ok next) : scope.Keeps next := by
  obtain ⟨free, rfl⟩ := scope_of_define defined
  intro other found here
  show (Table.insert _ _ _).get? other = _
  rw [Table.get?_insert, if_neg, here]
  rintro rfl
  exact Option.some_ne_none _ (here.symm.trans free)

end Scope

/-! ## Attributes -/

/-- Attributes that the assembler knows, each in one word. -/
structure Declared.Attributes.Known (a : Declared.Attributes) : Prop where
  type : ∀ name, a.type = some name →
    Solid name.toList ∧ (VariableType.ofName? name).isSome = true
  unit : ∀ u, a.unit = some u → Solid u.symbol.toList
  encoding : ∀ name, a.encoding = some name →
    Solid name.toList ∧ (Encoding.lookUp name).toOption.isSome = true

theorem Solid.one_line {cs : List Char} (solid : Solid cs) : '\n' ∉ cs :=
  fun there => absurd (solid.not_blank _ there) (by decide)

theorem IsName.one_line {cs : List Char} (isName : IsName cs) : '\n' ∉ cs :=
  isName.not_mem (by decide)

theorem foldlM_induct {ε α β : Type} {f : β → α → Except ε β} {P : β → Prop} {xs : List α}
    {b result : β} (start : P b)
    (step : ∀ b, ∀ x ∈ xs, P b → ∀ c, f b x = .ok c → P c)
    (folded : xs.foldlM f b = .ok result) : P result := by
  induction xs generalizing b with
  | nil => exact Except.ok.inj folded ▸ start
  | cons x rest ih =>
      rw [List.foldlM_cons] at folded
      obtain ⟨c, first, onward⟩ := bind_eq_ok.1 folded
      exact ih (step b x (List.mem_cons_self ..) start c first)
        (fun b y there => step b y (List.mem_cons_of_mem _ there)) onward

theorem Declared.Attributes.Known.words {a : Declared.Attributes} (known : a.Known) :
    ∀ f ∈ [a.type.getD "", (a.unit.map PhysicalUnit.symbol).getD "", a.encoding.getD ""],
      Solid f.toList := by
  have empty : Solid "".toList :=
    ⟨fun c there => absurd there List.not_mem_nil, fun c there => absurd there List.not_mem_nil⟩
  simp only [List.forall_mem_cons, List.not_mem_nil, false_imp_iff, implies_true, and_true]
  refine ⟨?_, ?_, ?_⟩
  · cases type : a.type with
    | none => exact empty
    | some name => exact (known.type name type).1
  · cases unit : a.unit with
    | none => exact empty
    | some u => exact known.unit u unit
  · cases encoding : a.encoding with
    | none => exact empty
    | some name => exact (known.encoding name encoding).1

theorem known_of_addAttribute {kind : DeclarationKind} {a b : Declared.Attributes} {name : String}
    {position : Position} (isName : IsName name.toList) (known : a.Known)
    (added : Declared.addAttribute kind a name position = .ok b) : b.Known := by
  unfold Declared.addAttribute at added
  split at added
  · rename_i isType
    rw [← Except.ok.inj added]
    exact ⟨fun _ same => Option.some.inj same ▸ ⟨isName.solid, isType.2⟩, known.unit,
      known.encoding⟩
  · split at added
    · rename_i isEncoding
      rw [← Except.ok.inj added]
      exact ⟨known.type, known.unit,
        fun _ same => Option.some.inj same ▸ ⟨isName.solid, isEncoding⟩⟩
    · split at added
      · rename_i unit read
        rw [← Except.ok.inj added]
        refine ⟨known.type, fun u same => ?_, known.encoding⟩
        obtain rfl := Option.some.inj same
        exact ⟨fun c there => isName.solid.plain c (PhysicalUnit.mem_of_symbol read there),
          fun c there => isName.solid.not_blank c (PhysicalUnit.mem_of_symbol read there)⟩
      · cases added

theorem known_typeName? (kind : DeclarationKind) : ∀ name, kind.typeName? = some name →
    Solid name.toList ∧ (VariableType.ofName? name).isSome = true := by
  intro name same
  cases kind <;> first
    | cases same; done
    | obtain rfl := Option.some.inj same
      exact ⟨IsName.solid (by decide), rfl⟩

theorem known_of_attributes {d : Declaration} {a : Declared.Attributes}
    (wellformed : d.Wellformed) (read : Declared.attributes d = .ok a) : a.Known := by
  have checked : (∀ name, d.encoding = some name → (Encoding.lookUp name).toOption.isSome = true) ∧
      d.attributes.foldlM (fun a x => Declared.addAttribute d.kind a x.1 x.2)
        ⟨d.kind.typeName?, none, d.encoding⟩ = .ok a := by
    unfold Declared.attributes at read
    dsimp only at read
    split at read
    · rename_i none'
      exact ⟨fun name same => absurd (none'.symm.trans same) (Option.some_ne_none name).symm, read⟩
    · rename_i encoding some'
      split at read
      · rename_i e found
        refine ⟨fun name same => ?_, read⟩
        obtain rfl := Option.some.inj (some'.symm.trans same)
        rw [found]
        rfl
      · cases read
  obtain ⟨looked, folded⟩ := checked
  have start : Declared.Attributes.Known ⟨d.kind.typeName?, none, d.encoding⟩ :=
    ⟨known_typeName? d.kind, fun _ same => (by cases same),
      fun name same => ⟨(wellformed.encoding name same).solid, looked name same⟩⟩
  exact foldlM_induct start (fun b x there known c added =>
    known_of_addAttribute (wellformed.attributes x there) known added) folded

/-! ## Declarations -/

/-- A line that declares a cell or a constant, and that the assembler refuses if it goes
on over several lines. -/
structure AssemblyLine.Declares (line : AssemblyLine) : Prop where
  neat : line.Neat
  breaks : '\n' ∈ line.text.toList → line.Breaks
  passive : line.isDeclaration = true
  fields : ∀ name fields, line = .cell name fields → fields.length ≠ 3

/-- What holds of the declarations so far. -/
structure Declared.Sound (d : Declared) : Prop where
  outer : d.scope.outer = Scope.program.outer
  cell : ∀ name kind slot cell, d.scope.symbols.get? name = some (.cell kind slot cell) →
    cell = name ∧ IsName name.toList ∧ name ∈ cellNames (d.lines.map PlacedLine.line)
  procedure : ∀ name cells, d.scope.symbols.get? name = some (.procedure cells) →
    IsName name.toList ∧ ∀ cell ∈ cells, IsName cell.toList ∧
      cell ∈ cellNames (d.lines.map PlacedLine.line)
  line : ∀ placed ∈ d.lines, placed.line.Declares
  constants : Formula.Scope.Spelled d.constants.get?
  initial : Formula.Scope.Spelled d.initial.get?

section Sound

variable {map : SourceMap} {d next : Declared} {v : Declaration} {name : String}

theorem Declared.Sound.empty : Declared.Sound {} where
  outer := rfl
  cell _ _ _ _ found := by cases found
  procedure _ _ found := by cases found
  line _ there := absurd there List.not_mem_nil
  constants _ _ found := by cases found
  initial _ _ found := by cases found

/-- Taking a cell changes nothing that is declared. -/
theorem Declared.Sound.allocate (sound : d.Sound) :
    Declared.Sound { d with scope := d.scope.allocateSlot.2 } :=
  ⟨sound.outer, sound.cell, sound.procedure, sound.line, sound.constants, sound.initial⟩

theorem spelled_insert {t : Table String Value} {x : Value} (known : Formula.Scope.Spelled t.get?)
    (spelled : x.Spelled) : Formula.Scope.Spelled (t.insert name x).get? := by
  intro other y found
  rw [Table.get?_insert] at found
  split at found
  · exact Option.some.inj found ▸ spelled
  · exact known other y found

/-- The values that a declaration may use. -/
theorem Declared.Sound.visible (sound : d.Sound) : Formula.Scope.Spelled d.visible := by
  intro name x found
  unfold Declared.visible at found
  cases constant : d.constants.get? name with
  | some y =>
      rw [constant] at found
      exact Option.some.inj found ▸ sound.constants name y constant
  | none =>
      rw [constant] at found
      exact sound.initial name x found

/-- A symbol and the lines of its cells come in. -/
theorem Declared.Sound.add {scope : Scope} {symbol : Symbol} (more : List PlacedLine)
    (sound : d.Sound) (isName : IsName name.toList)
    (defined : d.scope.define name symbol = .ok scope)
    (cell : ∀ kind slot cell, symbol = .cell kind slot cell → cell = name ∧
      name ∈ cellNames (more.map PlacedLine.line))
    (procedure : ∀ cells, symbol = .procedure cells → ∀ cell ∈ cells, IsName cell.toList ∧
      cell ∈ cellNames (more.map PlacedLine.line))
    (declares : ∀ placed ∈ more, placed.line.Declares) :
    Declared.Sound { d with scope, lines := d.lines ++ more } := by
  obtain ⟨_, rfl⟩ := scope_of_define defined
  have names : cellNames ((d.lines ++ more).map PlacedLine.line) =
      cellNames (d.lines.map PlacedLine.line) ++ cellNames (more.map PlacedLine.line) := by
    rw [List.map_append, cellNames_append]
  refine ⟨sound.outer, fun other kind slot cell' found => ?_, fun other cells found => ?_,
    fun placed there => ?_, sound.constants, sound.initial⟩
  · rw [names, List.mem_append]
    rw [Table.get?_insert] at found
    split at found
    · rename_i same
      subst same
      obtain ⟨rfl, new⟩ := cell kind slot cell' (Option.some.inj found)
      exact ⟨rfl, isName, .inr new⟩
    · obtain ⟨named, isName', there⟩ := sound.cell other kind slot cell' found
      exact ⟨named, isName', .inl there⟩
  · rw [names]
    rw [Table.get?_insert] at found
    split at found
    · rename_i same
      subst same
      refine ⟨isName, fun cell there => ?_⟩
      obtain ⟨isName', new⟩ := procedure cells (Option.some.inj found) cell there
      exact ⟨isName', List.mem_append_right _ new⟩
    · obtain ⟨isName', known⟩ := sound.procedure other cells found
      exact ⟨isName', fun cell there =>
        ⟨(known cell there).1, List.mem_append_left _ (known cell there).2⟩⟩
  · rcases List.mem_append.1 there with old | new
    · exact sound.line placed old
    · exact declares placed new

/-- The line of a constant. -/
theorem declares_constant {source : SourceFormula} (isName : IsName name.toList)
    (wellformed : source.Wellformed) : (AssemblyLine.constant name source.text).Declares where
  neat := isName
  breaks := breaks_of_constant isName wellformed
  passive := rfl
  fields _ _ same := by cases same

/-- The line of a variable. -/
theorem declares_cell {a : Declared.Attributes} (wellformed : v.Wellformed) (known : a.Known) :
    (AssemblyLine.cell v.name [(v.value.map (·.text)).getD "0", a.type.getD "",
      (a.unit.map PhysicalUnit.symbol).getD "", a.encoding.getD ""]).Declares where
  neat := wellformed.name
  breaks := by
    have others : ∀ f ∈ [a.type.getD "", (a.unit.map PhysicalUnit.symbol).getD "",
        a.encoding.getD ""], '\n' ∉ f.toList := fun f there => (known.words f there).one_line
    intro feed
    cases value : v.value with
    | some source =>
        rw [value] at feed
        exact breaks_of_cell wellformed.name (wellformed.value source value) others feed
    | none =>
        rw [value, cell_toList] at feed
        have noFeed := wellformed.name.one_line
        have inFields : '\n' ∈ (joinFields ("0" :: [a.type.getD "",
            (a.unit.map PhysicalUnit.symbol).getD "", a.encoding.getD ""])).toList := by
          simpa [noFeed] using feed
        exact absurd (mem_value_of_mem_joinFields others inFields) (by decide)
  passive := rfl
  fields _ _ same := by
    obtain ⟨_, rfl⟩ := AssemblyLine.cell.inj same
    exact Nat.succ_ne_self 3

/-- The line of a parameter. -/
theorem declares_parameter (isName : IsName name.toList) :
    (AssemblyLine.cell name ["0"]).Declares where
  neat := isName
  breaks feed := by
    rw [cell_toList] at feed
    simp [isName.one_line, joinFields] at feed
  passive := rfl
  fields _ _ same := by
    obtain ⟨_, rfl⟩ := AssemblyLine.cell.inj same
    decide

theorem scope_of_declaredDefine {position : Position} {symbol : Symbol}
    {fault : Symbol → CompileFault} (defined : d.define position name symbol fault = .ok next) :
    ∃ scope, d.scope.define name symbol = .ok scope ∧ next = { d with scope } := by
  unfold Declared.define at defined
  split at defined
  · rename_i scope taken
    exact ⟨scope, taken, (Except.ok.inj defined).symm⟩
  · cases defined

theorem Declared.Sound.declareConstant {source : SourceFormula} {value : Value} {slot : Nat}
    (sound : d.Sound) (isName : IsName v.name.toList) (wellformed : source.Wellformed)
    (spelled : value.Spelled) (declared : d.declareConstant v source value slot = .ok next) :
    next.Sound ∧ d.scope.Keeps next.scope := by
  obtain ⟨d', defined, result⟩ := bind_eq_ok.1 declared
  obtain ⟨scope, taken, rfl⟩ := scope_of_declaredDefine defined
  rw [← Except.ok.inj result]
  have added := sound.add [⟨.constant v.name source.text, some v.position.line⟩] isName taken
    (fun _ _ _ same => by cases same) (fun _ same => by cases same)
    (List.forall_mem_singleton.2 (declares_constant isName wellformed))
  exact ⟨⟨added.outer, added.cell, added.procedure, added.line,
    spelled_insert added.constants spelled, added.initial⟩, keeps_of_define taken⟩

/-- What a declaration of a variable takes and adds. -/
theorem parts_of_declareVariable {value : Option Value} {slot : Nat}
    (declared : d.declareVariable v value slot = .ok next) :
    ∃ a scope initial, Declared.attributes v = .ok a ∧
      d.scope.define v.name (.cell v.kind slot v.name) = .ok scope ∧
      (initial = d.initial ∨ ∃ x, value = some x ∧ initial = d.initial.insert v.name x) ∧
      next = Declared.addLine { d with scope, initial } v.position.line
        (.cell v.name [(v.value.map (·.text)).getD "0", a.type.getD "",
          (a.unit.map PhysicalUnit.symbol).getD "", a.encoding.getD ""]) := by
  unfold Declared.declareVariable at declared
  obtain ⟨a, read, declared⟩ := bind_eq_ok.1 declared
  dsimp only at declared
  split at declared
  · obtain ⟨_, _, declared⟩ := bind_eq_ok.1 declared
    obtain ⟨d', defined, result⟩ := bind_eq_ok.1 declared
    obtain ⟨scope, taken, rfl⟩ := scope_of_declaredDefine defined
    exact ⟨a, scope, _, read, taken, .inr ⟨_, rfl, rfl⟩, (Except.ok.inj result).symm⟩
  · obtain ⟨d', defined, result⟩ := bind_eq_ok.1 declared
    obtain ⟨scope, taken, rfl⟩ := scope_of_declaredDefine defined
    refine ⟨a, scope, _, read, taken, ?_, (Except.ok.inj result).symm⟩
    cases value with
    | some x => exact .inr ⟨x, rfl, rfl⟩
    | none => exact .inl rfl

theorem Declared.Sound.declareVariable {value : Option Value} {slot : Nat} (sound : d.Sound)
    (wellformed : v.Wellformed) (spelled : ∀ x, value = some x → x.Spelled)
    (declared : d.declareVariable v value slot = .ok next) :
    next.Sound ∧ d.scope.Keeps next.scope ∧
      next.scope.symbols.get? v.name = some (.cell v.kind slot v.name) := by
  obtain ⟨a, scope, initial, read, taken, entered, rfl⟩ := parts_of_declareVariable declared
  have added := sound.add [⟨.cell v.name [(v.value.map (·.text)).getD "0",
      a.type.getD "", (a.unit.map PhysicalUnit.symbol).getD "", a.encoding.getD ""],
      some v.position.line⟩] wellformed.name taken
    (fun _ _ _ same => ⟨(Symbol.cell.inj same).2.2.symm, List.mem_singleton.2 rfl⟩)
    (fun _ same => by cases same)
    (List.forall_mem_singleton.2 (declares_cell wellformed (known_of_attributes wellformed read)))
  refine ⟨⟨added.outer, added.cell, added.procedure, added.line, added.constants, ?_⟩,
    keeps_of_define taken, ?_⟩
  · rcases entered with rfl | ⟨x, is, rfl⟩
    · exact added.initial
    · exact spelled_insert added.initial (spelled x is)
  · obtain ⟨_, rfl⟩ := scope_of_define taken
    show (Table.insert _ _ _).get? _ = _
    rw [Table.get?_insert, if_pos rfl]

/-- The units of a formula of the source are names. -/
theorem AllParsed.spelled {formulas : List SourceFormula} (parsed : AllParsed formulas) :
    AllSpelled formulas :=
  fun v there =>
    Formula.spelled_of_madeOf (fun _ is => is.1) _ (Formula.madeOf_of_parse (parsed v there))

theorem SourceFormula.Wellformed.spelled {source : SourceFormula}
    (wellformed : source.Wellformed) : source.formula.spelled = true :=
  (allParsed_singleton wellformed.parsed).spelled source (List.mem_singleton.2 rfl)

/-- The value that a declaration is given. -/
theorem Declared.Sound.evaluated (sound : d.Sound) (wellformed : v.Wellformed)
    {value : Option Value}
    (evaluated : v.value.mapM (fun source =>
      Setting.evaluate map source.start source.formula d.visible) = .ok value) :
    ∀ x, value = some x → x.Spelled := by
  rintro x rfl
  cases source : v.value with
  | none =>
      rw [source] at evaluated
      cases evaluated
  | some source' =>
      rw [source] at evaluated
      obtain ⟨y, found, result⟩ := bind_eq_ok.1 evaluated
      obtain rfl := Option.some.inj (Except.ok.inj result)
      dsimp only [Setting.evaluate] at found
      split at found
      · rename_i e evaluated'
        rw [← Except.ok.inj found]
        exact Formula.Evaluator.spelled_of_evaluate sound.visible
          (wellformed.value source' source).spelled evaluated'
      · cases found

/-- **A declaration leaves everything in order.** -/
theorem Declared.Sound.declare (sound : d.Sound) (wellformed : v.Wellformed)
    (declared : d.declare map v = .ok next) :
    next.Sound ∧ d.scope.Keeps next.scope ∧ (v.kind ≠ .const →
      ∃ slot, next.scope.symbols.get? v.name = some (.cell v.kind slot v.name)) := by
  obtain ⟨value, evaluated, declared⟩ := bind_eq_ok.1 declared
  have spelled := sound.evaluated wellformed evaluated
  dsimp only at declared
  split at declared
  · rename_i const
    split at declared
    · rename_i source x given
      obtain ⟨sound', keeps⟩ := sound.allocate.declareConstant wellformed.name
        (wellformed.value source given) (spelled x rfl) declared
      exact ⟨sound', keeps, fun notConst => absurd const notConst⟩
    · cases declared
  · obtain ⟨sound', keeps, here⟩ := sound.allocate.declareVariable wellformed spelled declared
    exact ⟨sound', keeps, fun _ => ⟨_, here⟩⟩

/-- The name of a parameter's cell. -/
theorem isName_parameterCell {p x : String} (isName : IsName p.toList)
    (parameter : IsName x.toList) : IsName (Declared.parameterCell p x).toList where
  some' none' := by
    simp [Declared.parameterCell] at none'
  parts c there := by
    simp only [Declared.parameterCell, String.toList_append, List.mem_append] at there
    rcases there with (inName | between) | inParameter
    · exact isName.parts c inName
    · exact (show IsName "__".toList by decide).parts c between
    · exact parameter.parts c inParameter

theorem Declared.mem_cells {p : Procedure} {cell : String} :
    cell ∈ cells p ↔ ∃ x ∈ p.parameters, parameterCell p.name x = cell :=
  List.mem_map

/-- The cells of the parameters come in with a procedure. -/
theorem Declared.Sound.declareProcedure {p : Procedure} (sound : d.Sound)
    (wellformed : p.Wellformed) (declared : d.declareProcedure p = .ok next) :
    next.Sound ∧ d.scope.Keeps next.scope := by
  obtain ⟨scope, taken, rfl⟩ := scope_of_declaredDefine declared
  have isCell : ∀ cell ∈ cells p, IsName cell.toList := by
    intro cell there
    obtain ⟨x, parameter, rfl⟩ := mem_cells.1 there
    exact isName_parameterCell wellformed.name (wellformed.parameters x parameter)
  refine ⟨sound.add _ wellformed.name taken (fun _ _ _ same => by cases same)
    (fun cells' same => ?_) fun placed there => ?_, keeps_of_define taken⟩
  · obtain rfl := Symbol.procedure.inj same
    exact fun cell there => ⟨isCell cell there,
      mem_cellNames.2 ⟨["0"], List.mem_map.2 ⟨_, List.mem_map_of_mem there, rfl⟩⟩⟩
  · obtain ⟨cell, inCells, rfl⟩ := List.mem_map.1 there
    exact declares_parameter (isCell cell inCells)

/-- **Behind all declarations everything is in order**, and every variable has a cell of
its name. -/
theorem Declared.Sound.items {items : List Item} (sound : d.Sound)
    (wellformed : WellformedItems items)
    (declared : items.foldlM (Declared.item map) d = .ok next) :
    next.Sound ∧ d.scope.Keeps next.scope ∧ ∀ v, .declaration v ∈ items → v.kind ≠ .const →
      ∃ slot, next.scope.symbols.get? v.name = some (.cell v.kind slot v.name) := by
  induction items generalizing d with
  | nil =>
      obtain rfl := Except.ok.inj declared
      exact ⟨sound, fun _ _ here => here, fun v there => absurd there List.not_mem_nil⟩
  | cons item rest ih =>
      rw [List.foldlM_cons] at declared
      obtain ⟨d', first, onward⟩ := bind_eq_ok.1 declared
      obtain ⟨here, wellformed'⟩ := List.forall_mem_cons.1 wellformed
      have step : d'.Sound ∧ d.scope.Keeps d'.scope ∧ ∀ v, item = .declaration v → v.kind ≠ .const →
          ∃ slot, d'.scope.symbols.get? v.name = some (.cell v.kind slot v.name) := by
        cases item with
        | declaration v =>
            obtain ⟨sound', keeps, there⟩ := sound.declare here first
            exact ⟨sound', keeps, fun w same kind => Item.declaration.inj same ▸ there
              (Item.declaration.inj same ▸ kind)⟩
        | procedure p =>
            obtain ⟨sound', keeps⟩ := sound.declareProcedure here first
            exact ⟨sound', keeps, fun w same => by cases same⟩
        | statement s =>
            obtain rfl := Except.ok.inj first
            exact ⟨sound, fun _ _ there => there, fun w same => by cases same⟩
      obtain ⟨sound', keeps, own⟩ := step
      obtain ⟨last, keeps', others⟩ := ih sound' wellformed' onward
      refine ⟨last, fun name symbol there => keeps' _ _ (keeps _ _ there), fun w there kind => ?_⟩
      rcases List.mem_cons.1 there with same | later
      · obtain ⟨slot, there'⟩ := own w same.symm kind
        exact ⟨slot, keeps' _ _ there'⟩
      · exact others w later kind

end Sound

end PulseSequencer.Ppp
