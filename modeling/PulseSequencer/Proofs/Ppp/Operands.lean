import PulseSequencer.Proofs.Ppp.Translation

/-
# PulseSequencer.Proofs.Ppp.Operands -- folded formulas that the code needs

`Operand`, `TestOperand` and `StatementOperand` say which formulas without a variable are
operands at run time: parts that are folded of formulas that are not, values that are
stored, returned or passed, and arguments that a command takes from a cell.  Each of them is
kept in a cell (`keeps_lower`, `keeps_jump`, `keeps_statement`), and so is every operand of a
source that is compiled (`Translation.kept`).
-/

namespace PulseSequencer.Ppp

open Setting

set_option autoImplicit false

/-! ## Operands -/

/-- The parameter that an argument goes to. -/
def Builtin.parameter? (b : Builtin) (index : Nat) : Option String → Option Param
  | none => b.params[index]?
  | some keyword => b.params.find? fun p => p.name == keyword

/-- An argument of a call that is computed at run time: it goes to a slot of a command, to W,
or to a procedure. -/
inductive Computed (scope : Scope) (name : String) (index : Nat) (keyword : Option String) : Prop
  | slot {b : Builtin} {param : Param} (builtin : scope.lookup name = some (.builtin b))
      (parameter : b.parameter? index keyword = some param) (slot : param.kind = .slot)
  | accumulator {b : Builtin} {param : Param} (builtin : scope.lookup name = some (.builtin b))
      (parameter : b.parameter? index keyword = some param)
      (first : b.params.find? (fun p => p.kind == .accumulator) = some param)
  | procedure {cells : List String} (procedure : scope.lookup name = some (.procedure cells))

/-- What the compiler knows of a formula whose value is computed. -/
inductive Operand (scope : Scope) : Formula → Formula → Prop
  | known {f : Formula} (known : isConstant scope f = true) : Operand scope f f
  | left {offset : Nat} {op : BinaryOp} {left right f : Formula}
      (unknown : isConstant scope (.binary offset op left right) = false) :
      Operand scope left f → Operand scope (.binary offset op left right) f
  | right {offset : Nat} {op : BinaryOp} {left right f : Formula}
      (unknown : isConstant scope (.binary offset op left right) = false) :
      Operand scope right f → Operand scope (.binary offset op left right) f
  | unary {offset : Nat} {op : UnaryOp} {operand f : Formula}
      (unknown : isConstant scope (.unary offset op operand) = false) :
      Operand scope operand f → Operand scope (.unary offset op operand) f
  | argument {offset : Nat} {name : String} {args : List Formula} {i : Nat} {arg f : Formula}
      (unknown : isConstant scope (.call offset name args) = false)
      (given : args[i]? = some arg) (computed : Computed scope name i none) :
      Operand scope arg f → Operand scope (.call offset name args) f

/-- What the compiler knows of a condition, unless it settles it. -/
inductive TestOperand (scope : Scope) : Formula → Formula → Prop
  | single {test f : Formula} (unknown : isConstant scope test = false)
      (single : isSingle test = true) : Operand scope test f → TestOperand scope test f
  | not {offset : Nat} {operand f : Formula}
      (unknown : isConstant scope (.unary offset .not operand) = false) :
      TestOperand scope operand f → TestOperand scope (.unary offset .not operand) f
  | left {offset : Nat} {op : BinaryOp} {left right f : Formula} (logic : op = .and ∨ op = .or)
      (unknown : isConstant scope (.binary offset op left right) = false) :
      TestOperand scope left f → TestOperand scope (.binary offset op left right) f
  | right {offset : Nat} {op : BinaryOp} {left right f : Formula} (logic : op = .and ∨ op = .or)
      (unknown : isConstant scope (.binary offset op left right) = false) :
      TestOperand scope right f → TestOperand scope (.binary offset op left right) f

/-- What the compiler knows of the values and conditions of a statement. -/
inductive StatementOperand (scope : Scope) : Statement → Formula → Prop
  | assign {position : Position} {target : String} {op : Option AssignOp} {value : SourceFormula}
      {f : Formula} : Operand scope value.formula f →
        StatementOperand scope (.assign position target op value) f
  | argument {position : Position} {name : String} {arguments : List Argument} {i : Nat}
      {a : Argument} {f : Formula} (given : arguments[i]? = some a)
      (computed : Computed scope name i a.keyword) : Operand scope a.value.formula f →
        StatementOperand scope (.call position name arguments) f
  | return {position : Position} {value : SourceFormula} {f : Formula} :
      Operand scope value.formula f → StatementOperand scope (.return position (some value)) f
  | test {position : Position} {condition : SourceFormula} {body : List Statement} {f : Formula} :
      TestOperand scope condition.formula f →
        StatementOperand scope (.loop position condition body) f
  | body {position : Position} {condition : SourceFormula} {body : List Statement}
      {inner : Statement} {f : Formula} (inside : inner ∈ body) : StatementOperand scope inner f →
        StatementOperand scope (.loop position condition body) f
  | condition {position : Position} {branches : List (SourceFormula × List Statement)}
      {otherwise : List Statement} {branch : SourceFormula × List Statement} {f : Formula}
      (there : branch ∈ branches) : TestOperand scope branch.1.formula f →
        StatementOperand scope (.cond position branches otherwise) f
  | branch {position : Position} {branches : List (SourceFormula × List Statement)}
      {otherwise : List Statement} {branch : SourceFormula × List Statement} {inner : Statement}
      {f : Formula} (there : branch ∈ branches) (inside : inner ∈ branch.2) :
        StatementOperand scope inner f → StatementOperand scope (.cond position branches otherwise) f
  | otherwise {position : Position} {branches : List (SourceFormula × List Statement)}
      {otherwise : List Statement} {inner : Statement} {f : Formula} (inside : inner ∈ otherwise) :
        StatementOperand scope inner f → StatementOperand scope (.cond position branches otherwise) f

/-- What the compiler knows of the statements of a program and its procedures. -/
inductive ProgramOperand (declared : Declared) (items : List Item) (f : Formula) : Prop
  | main {statement : Statement} (there : statement ∈ statements items) :
      StatementOperand declared.scope statement f → ProgramOperand declared items f
  | procedure {p : Procedure} {scope : Scope} {statement : Statement} (there : .procedure p ∈ items)
      (bound : parameterScope p declared.scope.child p.parameters = .ok scope)
      (inside : statement ∈ p.body) :
      StatementOperand scope statement f → ProgramOperand declared items f

/-! ## Cells of folded values -/

/-- The folded value of a formula has a cell. -/
def Kept (constants : Table String Value) (pool : Pool) (f : Formula) : Prop :=
  ∃ evaluation magnitude unit cell,
    Formula.Evaluator.default.evaluateFormula f (.ofValues constants) = .ok evaluation ∧
    storable? evaluation.value = some (magnitude, unit) ∧
    pool.literals.get? (magnitude ++ " " ++ unit) = some cell

theorem Kept.mono {constants : Table String Value} {p q : Pool} {f : Formula}
    (kept : Kept constants p f) (adds : p.Adds constants q) : Kept constants q f := by
  obtain ⟨evaluation, magnitude, unit, cell, evaluated, stored, found⟩ := kept
  exact ⟨evaluation, magnitude, unit, cell, evaluated, stored, adds.literals _ _ found⟩

/-- A part of the lowering behind which the folded value of a formula has a cell. -/
def Keeps {α : Type} (constants : Table String Value) (f : Formula) (m : Lowering α) : Prop :=
  ∀ p a q, Made m p a q → Kept constants q f

section Keeps

variable {constants : Table String Value} {owner : String} {f : Formula} {α β : Type}
  {m : Lowering α} {rest : α → Lowering β}

theorem keeps_throw (e : CompileError) : Keeps constants f (throw e : Lowering α) :=
  fun _ _ _ made => absurd made not_made_throw

theorem Keeps.andThen (first : Keeps constants f m)
    (onward : ∀ a, Grows constants owner (rest a)) : Keeps constants f (m >>= rest) := by
  intro p b q made
  obtain ⟨a, middle, here, there⟩ := made_bind.1 made
  exact (first p a middle here).mono (onward a middle b q there).toAdds

/-- Code that keeps a value still does so with a result made of it. -/
theorem Keeps.map (first : Keeps constants f m) (g : α → β) :
    Keeps constants f (do
      let a ← m
      return g a) :=
  first.andThen fun a => (show Climbs constants "" _ from climbs_pure (g a)).grows

/-- Scratch cells hold no folded values. -/
theorem Keeps.freed (first : Keeps constants f m) (depth : Nat) (g : α → β) :
    Keeps constants f (do
      let a ← m
      freeScratch depth
      return g a) :=
  first.andThen fun a => show Grows constants "" _ from
    (grows_freeScratch depth).bind fun _ => grows_pure (g a)

theorem keeps_later (later : ∀ a, Keeps constants f (rest a)) : Keeps constants f (m >>= rest) := by
  intro p b q made
  obtain ⟨a, middle, _, there⟩ := made_bind.1 made
  exact later a middle b q there

end Keeps

namespace Setting

variable {s : Setting} {f : Formula}

theorem keeps_literal (start : Nat) : Keeps s.constants f (s.literal start f) := by
  intro p cell q made
  obtain ⟨evaluation, magnitude, unit, evaluated, stored, found, _⟩ := made_literal made
  exact ⟨evaluation, magnitude, unit, cell, evaluated, stored, found⟩

/-! ## Formulas -/

/-- Loading a formula, or making it an operand, keeps the folded value of another one. -/
def LoweredKeeps (s : Setting) (f : Formula) (l : Lowered) : Prop :=
  Keeps s.constants f l.load ∧ Keeps s.constants f l.operand

theorem keeps_known {start : Nat} {load : Lowering (List AssemblyLine)}
    (known : isConstant s.scope f = true) : LoweredKeeps s f (s.complete start f load) := by
  refine ⟨fun p code q made => ?_, ?_⟩
  · rw [made_complete_load, if_pos known] at made
    obtain ⟨cell, made, _⟩ := made
    exact keeps_literal start p cell q made
  · rintro p ⟨code, cell⟩ q made
    rcases made_complete_operand made with ⟨_, made, _⟩ | ⟨unknown, _⟩
    · exact keeps_literal start p cell q made
    · exact absurd (known.symm.trans unknown) (Bool.false_ne_true ∘ Eq.symm)

/-- Code that keeps a value keeps it wherever its own result goes. -/
theorem keeps_unknown {start : Nat} {formula : Formula} {load : Lowering (List AssemblyLine)}
    (unknown : isConstant s.scope formula = false)
    (unnamed : ∀ offset name, formula ≠ .name offset name) (keeps : Keeps s.constants f load) :
    LoweredKeeps s f (s.complete start formula load) := by
  refine ⟨fun p code q made => ?_, ?_⟩
  · rw [made_complete_load, if_neg (Bool.eq_false_iff.1 unknown)] at made
    exact keeps p code q made
  · rintro p ⟨code, cell⟩ q made
    rcases made_complete_operand made with
      ⟨known, _, _⟩ | ⟨_, ⟨offset, name, _, _, same, _⟩ | ⟨before, middle, loaded, taken, _⟩⟩
    · exact absurd (known.symm.trans unknown) (Bool.false_ne_true ∘ Eq.symm)
    · exact absurd same (unnamed offset name)
    · exact (keeps p before middle loaded).mono (climbs_takeScratch s middle cell q taken).1.toAdds

theorem lower_eq_complete (start : Nat) (formula : Formula) :
    ∃ load, s.lower start formula = s.complete start formula load := by
  cases formula <;> exact ⟨_, by rw [lower]; all_goals simp⟩

theorem keeps_loadBinary_left (offset : Nat) (op : BinaryOp) {left right : Lowered}
    (keeps : LoweredKeeps s f left) : Keeps s.constants f (s.loadBinary offset op left right) := by
  unfold loadBinary
  split
  · exact keeps_later fun _ => keeps.1.map _
  · split <;> exact keeps_throw _

theorem keeps_loadBinary_right (offset : Nat) (op : BinaryOp) {left right : Lowered}
    (climbs : LoweredClimbs s left) (keeps : LoweredKeeps s f right) :
    Keeps s.constants f (s.loadBinary offset op left right) := by
  unfold loadBinary
  split
  · exact keeps.2.andThen fun _ => (climbs.1.bind fun _ => climbs_pure _).grows
  · split <;> exact keeps_throw _

theorem keeps_loadUnary (offset : Nat) (op : UnaryOp) {operand : Lowered}
    (keeps : LoweredKeeps s f operand) : Keeps s.constants f (s.loadUnary offset op operand) := by
  unfold loadUnary
  split
  · exact keeps_throw _
  · exact keeps.1
  · exact keeps.2.map _

/-! ## Calls -/

section Calls

variable {b : Builtin} {position : Position} {arguments : List LoweredArgument} {i : Nat}
  {a : LoweredArgument} (given : arguments[i]? = some a)

/-- An argument is bound to the parameter that it goes to. -/
theorem bound_of_bindArguments {param : Param} : ∀ {arguments : List LoweredArgument}
    {index i : Nat} {bound result : Table String Lowered} {p q : Pool},
    arguments[i]? = some a → b.parameter? (index + i) a.keyword = some param →
      Made (bindArguments b position index bound arguments) p result q →
        result.get? param.name = some a.value
  | [], _, _, _, _, _, _, given, _, _ => by cases given
  | first :: rest, index, i, bound, result, p, q, given, parameter, made => by
      rw [bindArguments] at made
      split at made
      · exact absurd made not_made_throw
      · rename_i chosen found
        split at made
        · exact absurd made not_made_throw
        · cases i with
          | zero =>
              obtain rfl := Option.some.inj given
              have same : b.parameter? index first.keyword = some chosen := by
                rw [← found]
                cases first.keyword <;> rfl
              obtain rfl := Option.some.inj (same.symm.trans parameter)
              exact (made_bindArguments made).2.1 _ _ (by rw [Table.get?_insert, if_pos rfl])
          | succ i =>
              exact bound_of_bindArguments (i := i) given
                (by rwa [Nat.add_right_comm, Nat.add_assoc]) made

variable {bound : Table String Lowered} (climbs : ∀ n l, bound.get? n = some l → LoweredClimbs s l)
include climbs

theorem keeps_operands {param : Param} {l : Lowered} (found : bound.get? param.name = some l)
    (slot : param.kind = .slot) (keeps : LoweredKeeps s f l) : ∀ (params : List Param)
      (done : Operands), param ∈ params →
        Keeps s.constants f (s.operands b position bound done params)
  | [], _, there => absurd there List.not_mem_nil
  | first :: rest, done, there => by
      rcases List.mem_cons.1 there with rfl | later
      · rw [operands, found]
        dsimp only
        have computes : s.operandOf b position param l = l.operand := by
          rw [operandOf, slot]
        rw [computes]
        exact keeps.2.andThen fun _ => (climbs_operands climbs rest _).grows
      · rw [operands]
        split
        · split
          · exact keeps_operands found slot keeps rest done later
          · exact keeps_throw _
        · exact keeps_later fun _ => keeps_operands found slot keeps rest _ later

end Calls

theorem keeps_loadAccumulator {bound : Table String Lowered} {b : Builtin} {param : Param}
    {l : Lowered} (found : bound.get? param.name = some l)
    (first : b.params.find? (fun p => p.kind == .accumulator) = some param)
    (keeps : LoweredKeeps s f l) : Keeps s.constants f (loadAccumulator b bound) := by
  have chosen : b.params.find? (fun p => p.kind == .accumulator && bound.contains p.name) =
      some param := by
    obtain ⟨is, before, after, split', none'⟩ := List.find?_eq_some_iff_append.1 first
    refine List.find?_eq_some_iff_append.2 ⟨?_, before, after, split', fun p there => ?_⟩
    · rw [is, Table.contains, found]
      rfl
    · have other : (p.kind == .accumulator) = false := by simpa using none' p there
      rw [other, Bool.false_and]
      rfl
  rw [loadAccumulator, chosen]
  dsimp only
  rw [found]
  exact keeps.1

section Call

variable {name : String} {position : Position} {arguments : List LoweredArgument} {i : Nat}
  {a : LoweredArgument} (given : arguments[i]? = some a) (keeps : LoweredKeeps s f a.value)
  (climbs : ∀ other ∈ arguments, LoweredClimbs s other.value)
include given keeps climbs

/-- An argument of a command is kept that goes to a slot or to W. -/
theorem keeps_callBuiltin {b : Builtin} {param : Param}
    (parameter : b.parameter? i a.keyword = some param)
    (takes : param.kind = .slot ∨ b.params.find? (fun p => p.kind == .accumulator) = some param) :
    Keeps s.constants f (s.callBuiltin b arguments position) := by
  unfold callBuiltin
  split
  · exact keeps_throw _
  · intro p code q made
    simp only [made_bind, made_pure] at made
    obtain ⟨bound, p₁, bind, done, p₂, computed, loads, p₃, loaded, _, rfl⟩ := made
    have found : bound.get? param.name = some a.value :=
      bound_of_bindArguments given (by rwa [Nat.zero_add]) bind
    have onBound : ∀ n l, bound.get? n = some l → LoweredClimbs s l := by
      intro n l found
      rcases (made_bindArguments bind).1 n l found with none' | ⟨other, there, rfl⟩
      · cases none'
      · exact climbs other there
    rcases takes with slot | first
    · have known : param ∈ b.params := by
        cases keyword : a.keyword with
        | none =>
            rw [keyword] at parameter
            exact List.mem_of_getElem? parameter
        | some word =>
            rw [keyword] at parameter
            exact List.mem_of_find?_eq_some parameter
      exact (keeps_operands onBound found slot keeps _ _ known p₁ done p₂ computed).mono
        (climbs_loadAccumulator onBound p₂ loads p₃ loaded).1.toAdds
    · exact keeps_loadAccumulator found first keeps p₂ loads p₃ loaded

omit given keeps climbs in
/-- Every argument of a procedure is kept. -/
theorem keeps_passArguments (keeps : LoweredKeeps s f a.value) : ∀ {cells : List String}
    {arguments : List LoweredArgument} {i : Nat}, arguments[i]? = some a →
      arguments.length = cells.length → (∀ other ∈ arguments, LoweredClimbs s other.value) →
        Keeps s.constants f (passArguments position cells arguments)
  | _, [], _, given, _, _ => by cases given
  | [], _ :: _, _, _, same, _ => by cases same
  | cell :: cells, first :: rest, i, given, same, climbs => by
      obtain ⟨_, others⟩ := List.forall_mem_cons.1 climbs
      rw [passArguments]
      split
      · exact keeps_throw _
      · cases i with
        | zero =>
            obtain rfl := Option.some.inj given
            exact keeps.1.andThen fun _ =>
              ((climbs_passArguments position cells rest others).bind fun _ => climbs_pure _).grows
        | succ i =>
            exact keeps_later fun _ =>
              (keeps_passArguments keeps (i := i) given (Nat.succ.inj same) others).map _

theorem keeps_call (computed : Computed s.scope name i a.keyword) {asValue : Bool} :
    Keeps s.constants f (s.call name arguments position asValue) := by
  have builtin : ∀ {b : Builtin}, s.scope.lookup name = some (.builtin b) →
      Keeps s.constants f (s.callBuiltin b arguments position) →
        Keeps s.constants f (s.call name arguments position asValue) := by
    intro b found keeps
    rw [call, found]
    dsimp only
    split
    · exact keeps_throw _
    · exact keeps_throw _
    · exact keeps
  cases computed with
  | slot found parameter slot =>
      exact builtin found (keeps_callBuiltin given keeps climbs parameter (.inl slot))
  | accumulator found parameter first =>
      exact builtin found (keeps_callBuiltin given keeps climbs parameter (.inr first))
  | procedure found =>
      rw [call, found]
      dsimp only
      split
      · exact keeps_throw _
      · rename_i same
        exact (keeps_passArguments keeps given (Decidable.not_not.1 same) climbs).map _

end Call

theorem spelled_of_mem {args : List Formula} (spelled : Formula.spelledItems args = true)
    {arg : Formula} (there : arg ∈ args) : arg.spelled = true := by
  induction args with
  | nil => exact absurd there List.not_mem_nil
  | cons first rest ih =>
      rw [Formula.spelledItems, Bool.and_eq_true] at spelled
      rcases List.mem_cons.1 there with rfl | later
      · exact spelled.1
      · exact ih spelled.2 later

theorem getElem?_lowerArguments (start : Nat) : ∀ (args : List Formula) (i : Nat),
    (s.lowerArguments start args)[i]? = args[i]?.map fun arg => ⟨none, s.lower start arg⟩
  | [], _ => by rw [lowerArguments]; rfl
  | _ :: _, 0 => by rw [lowerArguments]; rfl
  | _ :: rest, i + 1 => by
      rw [lowerArguments]
      exact getElem?_lowerArguments start rest i

/-- **The code of a formula keeps its operands.** -/
theorem keeps_lower (start : Nat) {formula : Formula} (operand : Operand s.scope formula f)
    (spelled : formula.spelled = true) : LoweredKeeps s f (s.lower start formula) := by
  induction operand with
  | @known f known =>
      obtain ⟨load, same⟩ := lower_eq_complete (s := s) start f
      rw [same]
      exact keeps_known known
  | left unknown _ ih =>
      rw [lower]
      rw [Formula.spelled, Bool.and_eq_true] at spelled
      exact keeps_unknown unknown (fun _ _ same => Formula.noConfusion same)
        (keeps_loadBinary_left _ _ (ih spelled.1))
  | right unknown _ ih =>
      rw [lower]
      rw [Formula.spelled, Bool.and_eq_true] at spelled
      exact keeps_unknown unknown (fun _ _ same => Formula.noConfusion same)
        (keeps_loadBinary_right _ _ (climbs_lower start _ spelled.1) (ih spelled.2))
  | unary unknown _ ih =>
      rw [lower]
      rw [Formula.spelled] at spelled
      exact keeps_unknown unknown (fun _ _ same => Formula.noConfusion same)
        (keeps_loadUnary _ _ (ih spelled))
  | @argument offset name args i arg f unknown given computed _ ih =>
      rw [lower]
      rw [Formula.spelled] at spelled
      have passed : (s.lowerArguments start args)[i]? = some ⟨none, s.lower start arg⟩ := by
        rw [getElem?_lowerArguments, given]
        rfl
      exact keeps_unknown unknown (fun _ _ same => Formula.noConfusion same)
        (keeps_call passed (ih (spelled_of_mem spelled (List.mem_of_getElem? given)))
          (climbs_lowerArguments start args spelled) computed)

/-! ## Conditions -/

theorem keeps_jumpTest (start : Nat) (wanted : Bool) (label : String) {test : Formula}
    (unknown : isConstant s.scope test = false) (operand : Operand s.scope test f)
    (spelled : test.spelled = true) : Keeps s.constants f (s.jumpTest start wanted label test) := by
  have onValue : Keeps s.constants f (do
      let code ← (s.lower start test).load
      return code ++ [jumpIf .jmpnz .jmpz wanted label]) :=
    (keeps_lower start operand spelled).1.map _
  unfold jumpTest
  split
  · rename_i left right
    split
    · rw [Formula.spelled, Bool.and_eq_true] at spelled
      cases operand with
      | known known => exact absurd (known.symm.trans unknown) (Bool.false_ne_true ∘ Eq.symm)
      | left _ operand =>
          exact keeps_later fun _ => (keeps_lower start operand spelled.1).1.map _
      | right _ operand =>
          exact (keeps_lower start operand spelled.2).2.andThen fun _ =>
            ((climbs_lower start left spelled.1).1.bind fun _ => climbs_pure _).grows
    · exact onValue
  · split
    · split
      · split
        · rename_i none'
          cases operand with
          | known known => exact absurd (known.symm.trans unknown) (Bool.false_ne_true ∘ Eq.symm)
          | argument _ given _ _ =>
              rw [List.isEmpty_iff.1 none'] at given
              cases given
        · exact keeps_throw _
      · exact onValue
    · exact onValue
  · exact onValue

section Either

variable {kind : String} {settled wanted : Bool} {label : String}
  {left right : Bool → String → Lowering (List AssemblyLine)}

theorem keeps_jumpEither_left (keeps : ∀ b label, Keeps s.constants f (left b label))
    (climbs : ∀ b label, Climbs s.constants s.procedure (right b label)) :
    Keeps s.constants f (jumpEither kind settled left right wanted label) := by
  unfold jumpEither
  split
  · exact (keeps _ _).andThen fun _ => ((climbs _ _).bind fun _ => climbs_pure _).grows
  · exact keeps_later fun _ => (keeps _ _).andThen fun _ =>
      ((climbs _ _).bind fun _ => climbs_pure _).grows

theorem keeps_jumpEither_right (keeps : ∀ b label, Keeps s.constants f (right b label)) :
    Keeps s.constants f (jumpEither kind settled left right wanted label) := by
  unfold jumpEither
  split
  · exact keeps_later fun _ => (keeps _ _).map _
  · exact keeps_later fun _ => keeps_later fun _ => (keeps _ _).map _

end Either

/-- **The code of a condition keeps its operands.** -/
theorem keeps_jump (start : Nat) {test : Formula} (operand : TestOperand s.scope test f)
    (spelled : test.spelled = true) : ∀ (wanted : Bool) (label : String),
      Keeps s.constants f (s.jump start test wanted label) := by
  induction operand with
  | single unknown single operand =>
      intro wanted label
      rw [jump_single unknown single]
      exact keeps_jumpTest start wanted label unknown operand spelled
  | not unknown _ ih =>
      intro wanted label
      rw [jump_not unknown]
      rw [Formula.spelled] at spelled
      exact ih spelled _ _
  | left logic unknown _ ih =>
      intro wanted label
      rw [Formula.spelled, Bool.and_eq_true] at spelled
      have onRight := fun b label => climbs_jump (s := s) start _ b label spelled.2
      rcases logic with rfl | rfl
      · rw [jump_and unknown]
        exact keeps_jumpEither_left (ih spelled.1) onRight
      · rw [jump_or unknown]
        exact keeps_jumpEither_left (ih spelled.1) onRight
  | right logic unknown _ ih =>
      intro wanted label
      rw [Formula.spelled, Bool.and_eq_true] at spelled
      rcases logic with rfl | rfl
      · rw [jump_and unknown]
        exact keeps_jumpEither_right (ih spelled.2)
      · rw [jump_or unknown]
        exact keeps_jumpEither_right (ih spelled.2)

/-! ## Statements -/

theorem spelled_inside {statement : Statement} : ∀ {statements : List Statement},
    statement ∈ statements → AllSpelled (Statement.blockFormulas statements) →
      AllSpelled statement.formulas
  | [], there, _ => absurd there List.not_mem_nil
  | first :: rest, there, spelled => by
      rw [Statement.blockFormulas, allSpelled_append] at spelled
      rcases List.mem_cons.1 there with rfl | later
      · exact spelled.1
      · exact spelled_inside later spelled.2

theorem spelled_branch {branch : SourceFormula × List Statement} :
    ∀ {branches : List (SourceFormula × List Statement)}, branch ∈ branches →
      AllSpelled (Statement.branchFormulas branches) →
        branch.1.formula.spelled = true ∧ AllSpelled (Statement.blockFormulas branch.2)
  | [], there, _ => absurd there List.not_mem_nil
  | (condition, body) :: rest, there, spelled => by
      rw [Statement.branchFormulas, allSpelled_cons, allSpelled_append] at spelled
      rcases List.mem_cons.1 there with rfl | later
      · exact ⟨spelled.1, spelled.2.1⟩
      · exact spelled_branch later spelled.2.2

/-- A block keeps what one of its statements keeps. -/
theorem keeps_block {statement : Statement} (keeps : Keeps s.constants f (s.statement statement)) :
    ∀ {statements : List Statement}, statement ∈ statements →
      AllSpelled (Statement.blockFormulas statements) → Keeps s.constants f (s.block statements)
  | [], there, _ => absurd there List.not_mem_nil
  | first :: rest, there, spelled => by
      rw [Statement.blockFormulas, allSpelled_append] at spelled
      rw [Setting.block]
      rcases List.mem_cons.1 there with rfl | later
      · exact keeps.andThen fun _ => (grows_block s rest spelled.2).bind fun _ => grows_pure _
      · exact keeps_later fun _ => (keeps_block keeps later spelled.2).map _

/-- Branches keep what the test or the body of one of them keeps. -/
theorem keeps_branches {depth : Nat} {last : String} {ends : Bool}
    {branch : SourceFormula × List Statement}
    (keeps : (∀ label, Keeps s.constants f (s.jumpUnless branch.1 label)) ∨
      Keeps s.constants f (s.block branch.2)) :
    ∀ {branches : List (SourceFormula × List Statement)}, branch ∈ branches →
      AllSpelled (Statement.branchFormulas branches) →
        Keeps s.constants f (s.branches depth last ends branches)
  | [], there, _ => absurd there List.not_mem_nil
  | (condition, body) :: rest, there, spelled => by
      rw [Statement.branchFormulas, allSpelled_cons, allSpelled_append] at spelled
      obtain ⟨_, onBody, onRest⟩ := spelled
      -- Both kinds of branches compute the test and the body; one goes on with the rest.
      have here : ∀ {γ : Type} {label : String} {after : List AssemblyLine → List PlacedLine →
          Lowering γ}, branch = (condition, body) → (∀ a b, Grows s.constants s.procedure (after a b)) →
            Keeps s.constants f (do
              freeScratch depth
              let test ← s.jumpUnless condition label
              let code ← s.block body
              after test code) := by
        rintro γ label after rfl grows
        refine keeps_later fun _ => ?_
        rcases keeps with onTest | inBody
        · exact (onTest label).andThen fun test =>
            (grows_block s body onBody).bind fun code => grows test code
        · exact keeps_later fun test => inBody.andThen fun code => grows test code
      have moreGrows := grows_branches s depth last ends rest onRest
      rw [Setting.branches]
      split
      · rename_i final
        rcases List.mem_cons.1 there with same | later
        · exact here same fun _ _ => grows_pure _
        · rw [List.isEmpty_iff.1 final.2] at later
          exact absurd later List.not_mem_nil
      · refine keeps_later fun next => ?_
        rcases List.mem_cons.1 there with same | later
        · exact here same fun _ _ => moreGrows.bind fun _ => grows_pure _
        · exact keeps_later fun _ => keeps_later fun _ => keeps_later fun _ =>
            (keeps_branches keeps later onRest).map _

theorem keeps_assign {position : Position} {target : String} {op : Option AssignOp}
    {value : SourceFormula} (operand : Operand s.scope value.formula f)
    (spelled : value.formula.spelled = true) :
    Keeps s.constants f (s.assign position target op value) := by
  obtain ⟨load, asOperand⟩ := keeps_lower value.start operand spelled
  refine keeps_later fun cell => ?_
  cases op with
  | none => exact load.map _
  | some op => exact asOperand.map _

theorem keeps_leave {position : Position} {value : SourceFormula}
    (operand : Operand s.scope value.formula f) (spelled : value.formula.spelled = true) :
    Keeps s.constants f (s.leave position (some value)) := by
  unfold leave
  split
  · exact keeps_throw _
  · exact (keeps_lower value.start operand spelled).1.map _

/-- **The code of a statement keeps its operands.** -/
theorem keeps_statement {scope : Scope} {statement : Statement}
    (operand : StatementOperand scope statement f) : ∀ s : Setting, s.scope = scope →
      AllSpelled statement.formulas → Keeps s.constants f (s.statement statement) := by
  induction operand with
  | @assign position target op value f operand =>
      rintro s rfl spelled
      rw [Statement.formulas, allSpelled_cons] at spelled
      rw [Setting.statement]
      exact keeps_later fun _ => Keeps.freed
        (keeps_assign (s := { s with line := position.line }) operand spelled.1) _ _
  | @argument position name arguments i a f given computed operand =>
      rintro s rfl spelled
      rw [Statement.formulas] at spelled
      rw [Setting.statement]
      have passed : (({ s with line := position.line } : Setting).lowerCallArguments arguments)[i]? =
          some ⟨a.keyword, ({ s with line := position.line } : Setting).formula a.value⟩ := by
        rw [lowerCallArguments, List.getElem?_map, given]
        rfl
      have known : a.value.formula.spelled = true :=
        spelled a.value (List.mem_map_of_mem (List.mem_of_getElem? given))
      exact keeps_later fun _ => Keeps.freed
        (keeps_call (s := { s with line := position.line }) passed
          (keeps_lower _ operand known) (climbs_lowerCallArguments spelled) computed) _ _
  | @«return» position value f operand =>
      rintro s rfl spelled
      rw [Statement.formulas] at spelled
      rw [Setting.statement]
      exact keeps_later fun _ => Keeps.freed
        (keeps_leave (s := { s with line := position.line }) operand
          (spelled _ (List.mem_singleton.2 rfl))) _ _
  | @test position condition body f operand =>
      rintro s rfl spelled
      rw [Statement.formulas, allSpelled_cons] at spelled
      rw [Setting.statement]
      exact keeps_later fun _ => keeps_later fun _ => keeps_later fun _ =>
        (keeps_jump (s := { s with line := position.line }) _ operand spelled.1 _ _).andThen fun _ =>
          (grows_block s body spelled.2).bind fun _ =>
            (grows_freeScratch _).bind fun _ => grows_pure _
  | body inside _ ih =>
      rintro s rfl spelled
      rw [Statement.formulas, allSpelled_cons] at spelled
      rw [Setting.statement]
      exact keeps_later fun _ => keeps_later fun _ => keeps_later fun _ => keeps_later fun _ =>
        (keeps_block (ih s rfl (spelled_inside inside spelled.2)) inside spelled.2).freed _ _
  | @condition position branches otherwise branch f there operand =>
      rintro s rfl spelled
      rw [Statement.formulas, allSpelled_append] at spelled
      rw [Setting.statement]
      have onTest := fun label => keeps_jump (s := { s with line := position.line })
        branch.1.start operand (spelled_branch there spelled.1).1 false label
      exact keeps_later fun _ => keeps_later fun _ =>
        (keeps_branches (.inl onTest) there spelled.1).andThen fun _ =>
          (grows_block s otherwise spelled.2).bind fun _ =>
            (grows_freeScratch _).bind fun _ => grows_pure _
  | @branch position branches otherwise branch inner f there inside _ ih =>
      rintro s rfl spelled
      rw [Statement.formulas, allSpelled_append] at spelled
      rw [Setting.statement]
      have inBody := (spelled_branch there spelled.1).2
      have onBody := keeps_block (ih { s with line := position.line } rfl
        (spelled_inside inside inBody)) inside inBody
      exact keeps_later fun _ => keeps_later fun _ =>
        (keeps_branches (.inr onBody) there spelled.1).andThen fun _ =>
          (grows_block s otherwise spelled.2).bind fun _ =>
            (grows_freeScratch _).bind fun _ => grows_pure _
  | @otherwise position branches otherwise inner f inside _ ih =>
      rintro s rfl spelled
      rw [Statement.formulas, allSpelled_append] at spelled
      rw [Setting.statement]
      exact keeps_later fun _ => keeps_later fun _ => keeps_later fun _ =>
        (keeps_block (ih s rfl (spelled_inside inside spelled.2)) inside spelled.2).freed _ _

end Setting

/-! ## Programs -/

section Procedures

variable {s : Setting} {scope : Scope} {f : Formula} {statement : Statement} {p : Procedure}
  (bound : parameterScope p s.scope.child p.parameters = .ok scope) (inside : statement ∈ p.body)
  (operand : StatementOperand scope statement f)
include bound inside operand

theorem keeps_procedureCode (spelled : AllSpelled (Statement.blockFormulas p.body)) :
    Keeps s.constants f (procedureCode s p) := by
  intro a code b made
  simp only [procedureCode, made_bind, made_pure, made_liftM] at made
  obtain ⟨scope', _, ⟨same, rfl⟩, body, _, block, _, rfl⟩ := made
  obtain rfl := Except.ok.inj (bound.symm.trans same)
  exact keeps_block (keeps_statement operand { s with scope, procedure := p.name } rfl
    (spelled_inside inside spelled)) inside spelled _ _ _ block

/-- The code of procedures keeps the operands of each of them. -/
theorem keeps_proceduresCode : ∀ {procedures : List Procedure}, p ∈ procedures →
    (∀ q ∈ procedures, AllSpelled (Statement.blockFormulas q.body)) →
      Keeps s.constants f (proceduresCode s procedures)
  | [], there, _ => absurd there List.not_mem_nil
  | first :: rest, there, spelled => by
      obtain ⟨here, others⟩ := List.forall_mem_cons.1 spelled
      intro a code b made
      simp only [proceduresCode, made_bind, made_pure] at made
      obtain ⟨_, middle, once, _, _, onward, _, rfl⟩ := made
      rcases List.mem_cons.1 there with rfl | later
      · exact (keeps_procedureCode bound inside operand here _ _ _ once).mono
          (adds_proceduresCode others onward).1
      · exact keeps_proceduresCode later others _ _ _ onward

end Procedures

/-- **Every operand of a compiled source is kept.** -/
theorem Translation.kept {source : String} {items : List Item} {declared : Declared}
    {code : List PlacedLine} {pool : Pool}
    (translation : Translation source items declared code pool) {f : Formula}
    (operand : ProgramOperand declared items f) : Kept declared.constants pool f := by
  obtain ⟨_, _, _, onMain, onProcedures, _⟩ := translation.pieces
  have bodies : ∀ p ∈ items.filterMap Item.procedure?,
      AllSpelled (Statement.blockFormulas p.body) := fun p there =>
    translation.spelled_body (mem_procedures.1 there)
  cases operand with
  | main there operand =>
      exact (keeps_block (keeps_statement operand (mainSetting source declared) rfl
        (spelled_inside there translation.spelled)) there translation.spelled _ _ _ onMain).mono
          (adds_proceduresCode bodies onProcedures).1
  | procedure there bound inside operand =>
      exact keeps_proceduresCode (s := mainSetting source declared) bound inside operand
        (mem_procedures.2 there) bodies _ _ _ onProcedures

end PulseSequencer.Ppp
