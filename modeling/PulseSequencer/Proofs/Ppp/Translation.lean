import PulseSequencer.Proofs.Ppp.ParsedFormulas
import PulseSequencer.Proofs.Ppp.ProgramCode

/-
# PulseSequencer.Proofs.Ppp.Translation -- the parts of a compiled source

Every source that is compiled becomes declarations, and the code of the main program, its
end and the procedures (`Translation`).  The declarations are those of its items and, behind
them, cells of folded values (`Translation.declares`); the code only adds to the pool
(`Translation.adds`).
-/

namespace PulseSequencer.Ppp

open Setting

set_option autoImplicit false

/-- Where the statements of a main program are compiled. -/
def mainSetting (source : String) (declared : Declared) : Setting :=
  ⟨SourceMap.ofSource source, declared.constants, declared.scope, "", 0⟩

/-! ## The code of procedures -/

section Procedures

variable {s : Setting} {p : Procedure} {a b : Pool} {code : List PlacedLine}

theorem grows_procedureCode (spelled : AllSpelled (Statement.blockFormulas p.body))
    (made : Made (procedureCode s p) a code b) : a.Extends s.constants p.name b := by
  simp only [procedureCode, made_bind, made_pure, made_liftM] at made
  obtain ⟨scope, _, ⟨_, rfl⟩, body, _, block, _, rfl⟩ := made
  exact grows_block { s with scope, procedure := p.name } p.body spelled _ _ _ block

/-- The code of procedures takes scratch cells of these procedures only. -/
theorem adds_proceduresCode : ∀ {procedures : List Procedure} {a b : Pool} {code : List PlacedLine},
    (∀ p ∈ procedures, AllSpelled (Statement.blockFormulas p.body)) →
    Made (proceduresCode s procedures) a code b →
      a.Adds s.constants b ∧ ∀ owner, (∀ p ∈ procedures, p.name ≠ owner) →
        b.scratch.get? owner = a.scratch.get? owner
  | [], a, b, code, _, made => by
      obtain ⟨_, rfl⟩ := made_pure.1 made
      exact ⟨.refl a, fun _ _ => rfl⟩
  | p :: rest, a, b, code, spelled, made => by
      rw [proceduresCode] at made
      simp only [made_bind, made_pure] at made
      obtain ⟨_, middle, first, _, _, onward, _, rfl⟩ := made
      obtain ⟨here, others⟩ := List.forall_mem_cons.1 spelled
      have extends' := grows_procedureCode here first
      obtain ⟨adds, foreign⟩ := adds_proceduresCode others onward
      refine ⟨extends'.toAdds.trans adds, fun owner none' => ?_⟩
      obtain ⟨notHere, notThere⟩ := List.forall_mem_cons.1 none'
      rw [foreign owner notThere, extends'.foreign owner (Ne.symm notHere)]

end Procedures

/-! ## Sources -/

/-- What compiling a source makes: what its items declare, the code of the program, and the
pool behind it. -/
structure Translation (source : String) (items : List Item) (declared : Declared)
    (code : List PlacedLine) (pool : Pool) : Prop where
  parsed : ParsedItems items
  established : items.foldlM (Declared.item (SourceMap.ofSource source)) {} = .ok declared
  made : Made (programCode (SourceMap.ofSource source) declared items)
    { declarations := declared.lines } code pool

/-- **What compiling a source makes.** -/
theorem translation_of_compile {source : String} {items : List Item} {assembly : Assembly}
    (parsed : parse source = .ok items) (compiled : compile source = .ok assembly) :
    ∃ declared code pool, Translation source items declared code pool ∧
      assembly.lines = pool.declarations ++ scratchCells pool.scratch ++ code := by
  obtain ⟨items', parsed', generated⟩ := bind_eq_ok.1 compiled
  obtain rfl := Except.ok.inj (parsed.symm.trans parsed')
  obtain ⟨declared, established, generated⟩ := bind_eq_ok.1 generated
  obtain ⟨⟨code, pool⟩, made, result⟩ := bind_eq_ok.1 generated
  obtain rfl := Except.ok.inj result
  exact ⟨declared, code, pool, ⟨parsed_of_parse parsed, established, made⟩, rfl⟩

/-- An item declares cells and constants only. -/
theorem declaring_of_item {map : SourceMap} {d next : Declared} {item : Item}
    (declared : d.item map item = .ok next)
    (before : ∀ placed ∈ d.lines, placed.line.isDeclaration = true) :
    ∀ placed ∈ next.lines, placed.line.isDeclaration = true := by
  have added : ∀ {line : AssemblyLine} {number : Option Nat}, line.isDeclaration = true →
      ∀ placed ∈ d.lines ++ [⟨line, number⟩], placed.line.isDeclaration = true := fun passive =>
    List.forall_mem_append.2 ⟨before, List.forall_mem_singleton.2 passive⟩
  cases item with
  | statement s =>
      obtain rfl := Except.ok.inj declared
      exact before
  | procedure p =>
      obtain ⟨scope, _, rfl⟩ := scope_of_declaredDefine declared
      refine List.forall_mem_append.2 ⟨before, fun placed there => ?_⟩
      obtain ⟨cell, _, rfl⟩ := List.mem_map.1 there
      rfl
  | declaration v =>
      obtain ⟨value, _, declared⟩ := bind_eq_ok.1 declared
      dsimp only at declared
      split at declared
      · split at declared
        · obtain ⟨d', defined, result⟩ := bind_eq_ok.1 declared
          obtain ⟨scope, _, rfl⟩ := scope_of_declaredDefine defined
          rw [← Except.ok.inj result]
          exact added rfl
        · cases declared
      · obtain ⟨a, scope, initial, _, _, _, rfl⟩ := parts_of_declareVariable declared
        exact added rfl

section Translation

variable {source : String} {items : List Item} {declared : Declared} {code : List PlacedLine}
  {pool : Pool} (translation : Translation source items declared code pool)
include translation

theorem Translation.spelled : AllSpelled (Statement.blockFormulas (statements items)) :=
  translation.parsed.statements.spelled

theorem Translation.spelled_body {p : Procedure} (there : .procedure p ∈ items) :
    AllSpelled (Statement.blockFormulas p.body) :=
  AllParsed.spelled (translation.parsed _ there)

/-- The code of the main program, its end, and the code of the procedures. -/
theorem Translation.pieces : ∃ main procedures middle,
    Made ((mainSetting source declared).block (statements items))
      { declarations := declared.lines } main middle ∧
    Made (proceduresCode (mainSetting source declared) (items.filterMap Item.procedure?))
      middle procedures pool ∧
    code = main ++ mainEnd items main ++ procedures := by
  have made := translation.made
  simp only [programCode, made_bind, made_pure] at made
  obtain ⟨main, middle, onMain, procedures, _, onProcedures, rfl, rfl⟩ := made
  exact ⟨main, procedures, middle, onMain, onProcedures, rfl⟩

/-- What the code of a program adds to the pool: scratch cells of the main program and of
its procedures, and folded values. -/
theorem Translation.adds :
    Pool.Adds declared.constants { declarations := declared.lines } pool ∧
      ∀ owner, pool.scratch.get? owner ≠ none →
        owner = "" ∨ ∃ p, .procedure p ∈ items ∧ p.name = owner := by
  obtain ⟨_, _, _, onMain, onProcedures, _⟩ := translation.pieces
  have extends' := grows_block (mainSetting source declared) _ translation.spelled _ _ _ onMain
  obtain ⟨adds, foreign⟩ := adds_proceduresCode
    (fun p there => translation.spelled_body (mem_procedures.1 there)) onProcedures
  refine ⟨extends'.toAdds.trans adds, fun owner some' => ?_⟩
  by_cases main : owner = ""
  · exact .inl main
  · by_cases known : ∃ p, .procedure p ∈ items ∧ p.name = owner
    · exact .inr known
    · refine absurd ?_ some'
      rw [foreign owner fun p there same => known ⟨p, mem_procedures.1 there, same⟩,
        extends'.foreign owner main]
      rfl

/-- **The lines before the code declare cells and constants.** -/
theorem Translation.declares :
    ∀ placed ∈ pool.declarations ++ scratchCells pool.scratch,
      placed.line.isDeclaration = true := by
  have source : ∀ placed ∈ declared.lines, placed.line.isDeclaration = true :=
    foldlM_induct (P := fun d => ∀ placed ∈ d.lines, placed.line.isDeclaration = true)
      (fun _ there => absurd there List.not_mem_nil)
      (fun _ _ _ before _ step => declaring_of_item step before) translation.established
  obtain ⟨more, declarations⟩ := translation.adds.1.declarations
  refine List.forall_mem_append.2 ⟨fun placed there => ?_, fun placed there => ?_⟩
  · obtain ⟨k, found⟩ := List.mem_iff_getElem?.1 there
    by_cases before : k < declared.lines.length
    · rw [← declarations, List.getElem?_append_left before] at found
      exact source placed (List.mem_of_getElem? found)
    · obtain ⟨_, _, _, ⟨⟨_, _, _, _, _, _, _, _, line⟩, _⟩, _⟩ :=
        translation.adds.1.numbered k placed (Nat.le_of_not_lt before) found
      rw [line]
      rfl
  · obtain ⟨⟨owner, count⟩, _, inCells⟩ := List.mem_flatMap.1 there
    obtain ⟨i, _, rfl⟩ := List.mem_map.1 inCells
    rfl

end Translation

end PulseSequencer.Ppp
