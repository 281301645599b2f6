import PulseSequencer.Proofs.Ppp.Translation

/-
# PulseSequencer.Proofs.Ppp.Emission -- what every line of code is there for

`Emits` attributes code: a line is there for a statement of the source, or evaluates and
tests one of its conditions; around these are the label and the return of a procedure, and
the end of the main program (`Purpose`).  Every compiled program is attributed, and each
line is marked with the line at which its statement starts: `Translation.emits`.  The
conditions of a branching are no exception: all of them are marked with the line of its
`if` (`Purpose.line`).
-/

namespace PulseSequencer.Ppp

open Setting

set_option autoImplicit false

/-- What a line of code is there for. -/
inductive Purpose where
  | statement (s : Statement)
  /-- To evaluate and test a condition of a statement. -/
  | condition (s : Statement) (condition : SourceFormula)
  /-- To mark where a procedure starts. -/
  | entry (p : Procedure)
  /-- To return from a procedure that does not end with a return. -/
  | exit (p : Procedure)
  /-- To end the main program in front of the procedures. -/
  | finish (items : List Item)

/-- The line of the source that code is marked with. -/
def Purpose.line : Purpose → Nat
  | .statement s | .condition s _ => s.position.line
  | .entry p => p.position.line
  | .exit p => (p.body.getLast?.map (·.position.line)).getD p.position.line
  | .finish items => finalLine items

/-- A line of code with what it is there for. -/
structure EmittedLine where
  line : AssemblyLine
  purpose : Purpose

/-- The line as the compiler marks it. -/
def EmittedLine.placed (e : EmittedLine) : PlacedLine := ⟨e.line, some e.purpose.line⟩

/-- Code that is all there for one purpose. -/
def emit (purpose : Purpose) (code : List AssemblyLine) : List EmittedLine :=
  code.map fun line => ⟨line, purpose⟩

/-- Code that a part of the lowering can make. -/
def Makes (m : Lowering (List AssemblyLine)) (code : List AssemblyLine) : Prop :=
  ∃ p q, Made m p code q

/-- A part of a source that has code. -/
inductive CodedPart where
  | statement (s : Statement)
  | block (statements : List Statement)
  /-- The branches that are left of a branching with a label behind it. -/
  | branches (whole : Statement) (last : String) (left : List (SourceFormula × List Statement))

/-- The code of a part of a source, line by line with what it is there for. -/
inductive Emits : Setting → CodedPart → List EmittedLine → Prop
  | assign {s : Setting} {position : Position} {target : String} {op : Option AssignOp}
      {value : SourceFormula} {code : List AssemblyLine}
      (makes : Makes ({ s with line := position.line }.assign position target op value) code) :
      Emits s (.statement (.assign position target op value))
        (emit (.statement (.assign position target op value)) code)
  | call {s : Setting} {position : Position} {name : String} {arguments : List Argument}
      {code : List AssemblyLine}
      (makes : Makes ({ s with line := position.line }.call name
        ({ s with line := position.line }.lowerCallArguments arguments) position false) code) :
      Emits s (.statement (.call position name arguments))
        (emit (.statement (.call position name arguments)) code)
  | return {s : Setting} {position : Position} {value : Option SourceFormula}
      {code : List AssemblyLine}
      (makes : Makes ({ s with line := position.line }.leave position value) code) :
      Emits s (.statement (.return position value)) (emit (.statement (.return position value)) code)
  | pass {s : Setting} {position : Position} : Emits s (.statement (.pass position)) []
  | assembly {s : Setting} {position : Position} {text : String} :
      Emits s (.statement (.assembly position text))
        (emit (.statement (.assembly position text)) [.verbatim text])
  | loop {s : Setting} {position : Position} {condition : SourceFormula} {body : List Statement}
      {top last : String} {test : List AssemblyLine} {inner : List EmittedLine}
      (tests : Makes ({ s with line := position.line }.jumpUnless condition last) test)
      (emits : Emits s (.block body) inner) :
      Emits s (.statement (.loop position condition body))
        (emit (.statement (.loop position condition body)) [.label top] ++
          emit (.condition (.loop position condition body) condition) test ++ inner ++
          emit (.statement (.loop position condition body)) [.jump top, .label last])
  | cond {s : Setting} {position : Position} {branches : List (SourceFormula × List Statement)}
      {otherwise : List Statement} {last : String} {first rest : List EmittedLine}
      (emitsBranches : Emits { s with line := position.line }
        (.branches (.cond position branches otherwise) last branches) first)
      (emitsRest : Emits s (.block otherwise) rest) :
      Emits s (.statement (.cond position branches otherwise))
        (first ++ rest ++ emit (.statement (.cond position branches otherwise)) [.label last])
  | noBranch {s : Setting} {whole : Statement} {last : String} :
      Emits s (.branches whole last []) []
  /-- The last branch runs into the end. -/
  | lastBranch {s : Setting} {whole : Statement} {last : String} {condition : SourceFormula}
      {body : List Statement} {test : List AssemblyLine} {inner : List EmittedLine}
      (tests : Makes (s.jumpUnless condition last) test) (emits : Emits s (.block body) inner) :
      Emits s (.branches whole last [(condition, body)])
        (emit (.condition whole condition) test ++ inner)
  | branch {s : Setting} {whole : Statement} {last next : String} {condition : SourceFormula}
      {body : List Statement} {rest : List (SourceFormula × List Statement)}
      {test : List AssemblyLine} {inner more : List EmittedLine}
      (tests : Makes (s.jumpUnless condition next) test) (emits : Emits s (.block body) inner)
      (onward : Emits s (.branches whole last rest) more) :
      Emits s (.branches whole last ((condition, body) :: rest))
        (emit (.condition whole condition) test ++ inner ++
          emit (.statement whole) [.jump last, .label next] ++ more)
  | done {s : Setting} : Emits s (.block []) []
  | next {s : Setting} {first : Statement} {rest : List Statement} {one more : List EmittedLine}
      (emits : Emits s (.statement first) one) (onward : Emits s (.block rest) more) :
      Emits s (.block (first :: rest)) (one ++ more)

/-! ## Statements -/

theorem map_emit (purpose : Purpose) (code : List AssemblyLine) :
    (emit purpose code).map EmittedLine.placed = Ppp.placed purpose.line code := by
  rw [emit, List.map_map]
  rfl

mutual

theorem emits_statement (s : Setting) : ∀ (statement : Statement) {p q : Pool}
    {code : List PlacedLine}, Made (s.statement statement) p code q →
      ∃ emitted, Emits s (.statement statement) emitted ∧ code = emitted.map EmittedLine.placed
  | .assign position target op value, p, q, code, made => by
      rw [Setting.statement] at made
      simp only [made_bind, made_get, made_pure] at made
      obtain ⟨_, _, ⟨rfl, rfl⟩, text, _, assigned, _, _, _, rfl, _⟩ := made
      refine ⟨_, .assign ⟨_, _, assigned⟩, ?_⟩
      rw [map_emit]
      rfl
  | .cond position branches otherwise, p, q, code, made => by
      rw [Setting.statement] at made
      simp only [made_bind, made_get, made_pure] at made
      obtain ⟨_, _, ⟨rfl, rfl⟩, last, _, _, _, _, madeFirst, _, _, madeRest, _, _, _, rfl, _⟩ := made
      obtain ⟨first, emitsFirst, rfl⟩ := emits_branches { s with line := position.line } _ last _
        (.cond position branches otherwise) rfl branches madeFirst
      obtain ⟨rest, emitsRest, rfl⟩ := emits_block s otherwise madeRest
      refine ⟨_, .cond emitsFirst emitsRest, ?_⟩
      rw [List.map_append, List.map_append, map_emit]
      rfl
  | .loop position condition body, p, q, code, made => by
      rw [Setting.statement] at made
      simp only [made_bind, made_get, made_pure] at made
      obtain ⟨_, _, ⟨rfl, rfl⟩, top, _, _, last, _, _, test, _, tested, _, _, madeBody, _, _, _,
        rfl, _⟩ := made
      obtain ⟨inner, emits, rfl⟩ := emits_block s body madeBody
      refine ⟨_, @Emits.loop s position condition body top last test inner ⟨_, _, tested⟩ emits, ?_⟩
      simp only [List.map_append, map_emit]
      rfl
  | .call position name arguments, p, q, code, made => by
      rw [Setting.statement] at made
      simp only [made_bind, made_get, made_pure] at made
      obtain ⟨_, _, ⟨rfl, rfl⟩, text, _, called, _, _, _, rfl, _⟩ := made
      refine ⟨_, .call ⟨_, _, called⟩, ?_⟩
      rw [map_emit]
      rfl
  | .return position value, p, q, code, made => by
      rw [Setting.statement] at made
      simp only [made_bind, made_get, made_pure] at made
      obtain ⟨_, _, ⟨rfl, rfl⟩, text, _, left, _, _, _, rfl, _⟩ := made
      refine ⟨_, .return ⟨_, _, left⟩, ?_⟩
      rw [map_emit]
      rfl
  | .pass _, p, q, code, made => by
      rw [Setting.statement, made_pure] at made
      obtain ⟨rfl, _⟩ := made
      exact ⟨_, .pass, rfl⟩
  | .assembly position text, p, q, code, made => by
      rw [Setting.statement, made_pure] at made
      obtain ⟨rfl, _⟩ := made
      exact ⟨_, .assembly, rfl⟩

/-- The branches of a branching are made in the line at which it starts. -/
theorem emits_branches (s : Setting) (depth : Nat) (last : String) (ends : Bool)
    (whole : Statement) (starts : whole.position.line = s.line) :
    ∀ (branches : List (SourceFormula × List Statement)) {p q : Pool} {code : List PlacedLine},
      Made (s.branches depth last ends branches) p code q →
        ∃ emitted, Emits s (.branches whole last branches) emitted ∧
          code = emitted.map EmittedLine.placed
  | [], p, q, code, made => by
      rw [Setting.branches, made_pure] at made
      obtain ⟨rfl, _⟩ := made
      exact ⟨_, .noBranch, rfl⟩
  | (condition, body) :: rest, p, q, code, made => by
      have marked : ∀ text, (emit (.condition whole condition) text).map EmittedLine.placed =
          Ppp.placed s.line text := fun text => by rw [map_emit, Purpose.line, starts]
      rw [Setting.branches] at made
      split at made
      · rename_i runsOn
        simp only [made_bind, made_pure] at made
        obtain ⟨_, _, _, test, _, tested, _, _, madeBody, rfl, _⟩ := made
        obtain ⟨inner, emits, rfl⟩ := emits_block s body madeBody
        obtain rfl := List.isEmpty_iff.1 runsOn.2
        refine ⟨_, .lastBranch ⟨_, _, tested⟩ emits, ?_⟩
        rw [List.map_append, marked]
      · simp only [made_bind, made_pure] at made
        obtain ⟨next, _, _, _, _, _, test, _, tested, _, _, madeBody, _, _, madeMore, rfl, _⟩ := made
        obtain ⟨inner, emits, rfl⟩ := emits_block s body madeBody
        obtain ⟨more, onward, rfl⟩ := emits_branches s depth last ends whole starts rest madeMore
        refine ⟨_, .branch ⟨_, _, tested⟩ emits onward, ?_⟩
        simp only [List.map_append, marked, map_emit, Purpose.line, starts]

/-- **The code of statements is attributed to them.** -/
theorem emits_block (s : Setting) : ∀ (statements : List Statement) {p q : Pool}
    {code : List PlacedLine}, Made (s.block statements) p code q →
      ∃ emitted, Emits s (.block statements) emitted ∧ code = emitted.map EmittedLine.placed
  | [], p, q, code, made => by
      rw [Setting.block, made_pure] at made
      obtain ⟨rfl, _⟩ := made
      exact ⟨_, .done, rfl⟩
  | first :: rest, p, q, code, made => by
      simp only [Setting.block, made_bind, made_pure] at made
      obtain ⟨_, _, madeFirst, _, _, madeRest, rfl, _⟩ := made
      obtain ⟨one, emits, rfl⟩ := emits_statement s first madeFirst
      obtain ⟨more, onward, rfl⟩ := emits_block s rest madeRest
      exact ⟨_, .next emits onward, (List.map_append ..).symm⟩

end

/-! ## Programs -/

/-- The return behind the body of a procedure. -/
def exitCode (p : Procedure) : List AssemblyLine :=
  match p.body.getLast? with
  | some (.return _ _) => []
  | _ => [.instruction .jmppop []]

/-- The code of a procedure, line by line with what it is there for. -/
inductive EmitsProcedure (s : Setting) (p : Procedure) : List EmittedLine → Prop
  | intro {scope : Scope} {body : List EmittedLine}
      (parameters : parameterScope p s.scope.child p.parameters = .ok scope)
      (emits : Emits { s with scope, procedure := p.name } (.block p.body) body) :
      EmitsProcedure s p
        (emit (.entry p) [.label p.name] ++ body ++ emit (.exit p) (exitCode p))

/-- The code of a program, line by line with what it is there for. -/
inductive EmitsProgram (s : Setting) (items : List Item) : List EmittedLine → Prop
  | intro {main : List EmittedLine} {ending : List AssemblyLine}
      {procedures : List (List EmittedLine)}
      (emits : Emits s (.block (statements items)) main)
      (ends : ending = [] ∨ ending = [.instruction .finish []])
      (others : List.Forall₂ (EmitsProcedure s) (items.filterMap Item.procedure?) procedures) :
      EmitsProgram s items (main ++ emit (.finish items) ending ++ procedures.flatten)

section Programs

variable {s : Setting}

theorem emits_procedure {p : Procedure} {a b : Pool} {code : List PlacedLine}
    (made : Made (procedureCode s p) a code b) :
    ∃ emitted, EmitsProcedure s p emitted ∧ code = emitted.map EmittedLine.placed := by
  simp only [procedureCode, made_bind, made_pure, made_liftM] at made
  obtain ⟨scope, _, ⟨parameters, rfl⟩, _, _, block, rfl, _⟩ := made
  obtain ⟨body, emits, rfl⟩ := emits_block { s with scope, procedure := p.name } p.body block
  refine ⟨_, .intro parameters emits, ?_⟩
  simp only [List.map_append, map_emit, Purpose.line, exitCode]
  cases p.body.getLast? with
  | none => rfl
  | some other => cases other <;> rfl

theorem emits_procedures : ∀ {procedures : List Procedure} {a b : Pool} {code : List PlacedLine},
    Made (proceduresCode s procedures) a code b →
      ∃ emitted, List.Forall₂ (EmitsProcedure s) procedures emitted ∧
        code = emitted.flatten.map EmittedLine.placed
  | [], a, b, code, made => by
      obtain ⟨rfl, _⟩ := made_pure.1 made
      exact ⟨[], .nil, rfl⟩
  | p :: rest, a, b, code, made => by
      rw [proceduresCode] at made
      simp only [made_bind, made_pure] at made
      obtain ⟨_, _, first, _, _, onward, rfl, _⟩ := made
      obtain ⟨one, emits, rfl⟩ := emits_procedure first
      obtain ⟨more, others, rfl⟩ := emits_procedures onward
      exact ⟨one :: more, .cons emits others, by rw [List.flatten_cons, List.map_append]⟩

/-- **The code of every source is attributed.** -/
theorem Translation.emits {source : String} {items : List Item} {declared : Declared}
    {code : List PlacedLine} {pool : Pool}
    (translation : Translation source items declared code pool) :
    ∃ emitted, EmitsProgram (mainSetting source declared) items emitted ∧
      code = emitted.map EmittedLine.placed := by
  obtain ⟨_, _, _, onMain, onProcedures, rfl⟩ := translation.pieces
  obtain ⟨main, emits, rfl⟩ := emits_block _ _ onMain
  obtain ⟨procedures, others, rfl⟩ := emits_procedures onProcedures
  obtain ⟨ending, ends, same⟩ : ∃ ending, (ending = [] ∨ ending = [.instruction .finish []]) ∧
      mainEnd items (main.map EmittedLine.placed) =
        (emit (.finish items) ending).map EmittedLine.placed := by
    simp only [map_emit]
    unfold mainEnd
    split
    · exact ⟨[], .inl rfl, rfl⟩
    · split
      · exact ⟨[], .inl rfl, rfl⟩
      · exact ⟨_, .inr rfl, rfl⟩
  exact ⟨_, .intro emits ends others, by rw [same, List.map_append, List.map_append]⟩

end Programs

end PulseSequencer.Ppp
