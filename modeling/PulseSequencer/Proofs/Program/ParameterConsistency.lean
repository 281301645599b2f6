import PulseSequencer.Program.ParameterTable
import PulseSequencer.Proofs.DependencyGraph.Propagation
import PulseSequencer.Proofs.Formula.Reading

/-
# PulseSequencer.Proofs.Program.ParameterConsistency -- what a formula's name holds

A name defined by a formula is evaluated again when a name changes that its
definition read.  What it holds is therefore the value of its formula as far as the
names are concerned that the definition read (`Reached.justified`).  Other names of
the formula can change unnoticed: the operand that `and` or `or` left out, and a
constant that is given a value.  A name holds the value of its formula exactly as
long as the formula reads no such name (`held_of_recorded`).
-/

namespace PulseSequencer

set_option autoImplicit false

theorem Quantity.same_refl (q : Quantity) : q.same q = true := by
  simp only [same, beq_self_eq_true, Bool.and_self]

theorem Quantity.same_dimension {a b : Quantity} (same : a.same b = true) :
    a.dimension = b.dimension := by
  simp only [Quantity.same, Bool.and_eq_true, beq_iff_eq] at same
  exact same.1

namespace ParameterTable

variable {t : ParameterTable}

/-- The evaluation of a formula over the values of a table. -/
abbrev evaluation (values : Table String Quantity) (text : String) :
    Except FormulaError Formula.Evaluation :=
  Formula.Evaluator.default.evaluate text (Formula.Scope.ofQuantities values)

/-- The quantity of an evaluation depends on nothing else. -/
theorem evaluateQuantity_congr {values others : Table String Quantity} {text : String}
    (same : evaluation others text = evaluation values text) :
    Formula.evaluateQuantity text others = Formula.evaluateQuantity text values := by
  simp only [Formula.evaluateQuantity, same]

/-! ## Reached tables -/

/-- The tables that changes without an error lead to. -/
inductive Reached : ParameterTable → Prop
  | empty : Reached ParameterTable.empty
  | setValue {t next : ParameterTable} {name : String} {value : Quantity}
      {updated : List String} (reached : Reached t)
      (changed : t.setValue name value = (next, .ok updated)) : Reached next
  | setFormula {t next : ParameterTable} {name text : String} {updated : List String}
      (reached : Reached t) (changed : t.setFormula name text = (next, .ok updated)) :
      Reached next

/-- A name holds what its formula gives over some values that agree with those of the
table on the recorded dependencies and know no other names. -/
def Justified (t : ParameterTable) (name text : String) : Prop :=
  ∃ old : Table String Quantity, ∃ held value,
    t.get? name = some held ∧ Formula.evaluateQuantity text old = .ok value ∧
      held.same value = true ∧
      (∀ d ∈ t.graph.dependencies name, old.get? d = t.values.get? d) ∧
      ∀ d, t.values.get? d = none → old.get? d = none

/-- A new value does not concern a name that does not depend on it. -/
theorem Justified.insert {next : ParameterTable} {x name text : String} {value : Quantity}
    (justified : t.Justified x text) (values : next.values = t.values.insert name value)
    (edges : next.graph.dependencies x = t.graph.dependencies x) (differs : x ≠ name)
    (apart : name ∉ t.graph.dependencies x) : next.Justified x text := by
  obtain ⟨old, held, result, holds, evaluated, same, agree, absent⟩ := justified
  refine ⟨old, held, result, ?_, evaluated, same, fun d edge => ?_, fun d none => ?_⟩
  · simpa [get?, values, differs] using holds
  · rw [edges] at edge
    have other : d ≠ name := fun here => apart (here ▸ edge)
    simpa [values, other] using agree d edge
  · rw [values, Table.get?_insert] at none
    split at none
    · exact absurd none (by simp)
    · exact absent d none

/-- A name that takes the value of its formula is justified by the values before. -/
theorem justified_insert {next : ParameterTable} {name text : String} {value : Quantity}
    (values : next.values = t.values.insert name value)
    (evaluated : Formula.evaluateQuantity text t.values = .ok value)
    (noSelf : name ∉ next.graph.dependencies name) : next.Justified name text := by
  refine ⟨t.values, value, value, ?_, evaluated, value.same_refl, fun d edge => ?_, fun d none => ?_⟩
  · simp [get?, values]
  · have other : d ≠ name := fun here => noSelf (here ▸ edge)
    simp [values, other]
  · rw [values, Table.get?_insert] at none
    split at none
    · exact absurd none (by simp)
    · exact none

/-! ## One wave -/

/-- Whoever depends on a name of the list comes after it. -/
def DependentsFollow (g : DependencyGraph) : List String → Prop
  | [] => True
  | name :: rest => (∀ x, name ∈ g.dependencies x → x ∈ rest) ∧ DependentsFollow g rest

theorem dependentsFollow_order {g : DependencyGraph} (wellFormed : g.WellFormed)
    (changed : String) : DependentsFollow g (g.propagationOrder changed) := by
  suffices every : ∀ before rest, g.propagationOrder changed = before ++ rest →
      DependentsFollow g rest from every [] _ rfl
  intro before rest
  induction rest generalizing before with
  | nil => intro _; trivial
  | cons name rest ih =>
      intro split
      refine ⟨fun x edge => ?_, ih (before ++ [name]) (by simpa using split)⟩
      have listed : name ∈ g.propagationOrder changed := by simp [split]
      have follows := wellFormed.mem_propagationOrder_iff.1 listed
      have there : x ∈ g.propagationOrder changed :=
        wellFormed.mem_propagationOrder_iff.2 (.head edge follows)
      -- were `x` at `name` or before it, `name` would come before itself
      have once := wellFormed.propagationOrder_nodup changed
      rw [split] at there once
      rcases List.mem_append.1 there with early | late
      · obtain ⟨first, last, rfl⟩ := List.append_of_mem early
        have split' : g.propagationOrder changed = first ++ x :: (last ++ name :: rest) := by
          simpa using split
        have sooner := wellFormed.propagationOrder_sorted split' name edge listed
        have apart := (List.nodup_append.1 once).2.2 name (List.mem_append_left _ sooner) name
          (List.mem_cons_self ..)
        exact absurd rfl apart
      · rcases List.mem_cons.1 late with rfl | late
        · exact absurd (.single edge) (wellFormed.not_follows_self x)
        · exact late

/-- A wave ends with every name justified, if all that it does not come to are. -/
theorem refresh_justified {names updated all : List String} {next : ParameterTable}
    (wellFormed : t.graph.WellFormed) (follow : DependentsFollow t.graph names)
    (others : ∀ x text, t.formula? x = some text → x ∉ names → t.Justified x text)
    (refreshed : t.refresh updated names = (next, .ok all)) :
    next.graph = t.graph ∧ next.formulas = t.formulas ∧
      ∀ x text, next.formula? x = some text → next.Justified x text := by
  induction names generalizing t updated with
  | nil =>
      obtain rfl := (Prod.mk.inj refreshed).1
      exact ⟨rfl, rfl, fun x text defined => others x text defined List.not_mem_nil⟩
  | cons name rest ih =>
      obtain ⟨later, follow⟩ := follow
      have noSelf : name ∉ t.graph.dependencies name := fun edge =>
        wellFormed.not_follows_self name (.single edge)
      rw [refresh] at refreshed
      split at refreshed
      · rename_i undefined
        refine ih wellFormed follow (fun x text defined away => ?_) refreshed
        refine others x text defined fun there => ?_
        rcases List.mem_cons.1 there with rfl | there
        · rw [undefined] at defined
          exact Option.some_ne_none _ defined.symm
        · exact away there
      · rename_i text defined
        split at refreshed
        · simp at refreshed
        · rename_i value evaluated
          split at refreshed
          · rename_i holds
            refine ih wellFormed follow (fun x text' defined' away => ?_) refreshed
            by_cases here : x = name
            · subst here
              obtain rfl := Option.some.inj (defined.symm.trans defined')
              rw [ParameterTable.holds] at holds
              split at holds
              · rename_i held read
                exact ⟨t.values, held, value, read, evaluated, holds, fun _ _ => rfl,
                  fun _ none => none⟩
              · simp at holds
            · exact others x text' defined' (by simp [here, away])
          · refine ih (t := t.write name value) wellFormed follow
              (fun x text' defined' away => ?_) refreshed
            by_cases here : x = name
            · subst here
              obtain rfl := Option.some.inj (defined.symm.trans defined')
              exact justified_insert rfl evaluated noSelf
            · exact (others x text' defined' (by simp [here, away])).insert rfl rfl here
                fun edge => away (later x edge)

/-! ## Every reached table -/

/-- What every change keeps. -/
structure Kept (t : ParameterTable) : Prop where
  wellFormed : t.graph.WellFormed
  justified : ∀ x text, t.formula? x = some text → t.Justified x text

theorem Kept.empty : ParameterTable.empty.Kept where
  wellFormed := .empty
  justified _ text defined := absurd defined.symm (Option.some_ne_none text)

/-- A name that does not follow a change does not depend on it. -/
theorem not_mem_dependencies_of_not_mem_order {g : DependencyGraph} (wellFormed : g.WellFormed)
    {x changed : String} (away : x ∉ g.propagationOrder changed) :
    changed ∉ g.dependencies x := fun edge =>
  away (wellFormed.mem_propagationOrder_iff.2 (.single edge))

theorem Kept.setValue {next : ParameterTable} {name : String} {value : Quantity}
    {updated : List String} (kept : t.Kept)
    (changed : t.setValue name value = (next, .ok updated)) : next.Kept := by
  obtain ⟨wellFormed, edges⟩ := kept.wellFormed.clearDependencies name
  have others : ∀ x text, (t.formulas.erase name).get? x = some text →
      x ∉ (t.graph.clearDependencies name).propagationOrder name →
      Justified ⟨t.values.insert name value, t.formulas.erase name,
        t.graph.clearDependencies name⟩ x text := by
    intro x text defined away
    have apart := not_mem_dependencies_of_not_mem_order wellFormed away
    rw [Table.get?_erase] at defined
    split at defined
    · simp at defined
    · rename_i differs
      have same : (t.graph.clearDependencies name).dependencies x = t.graph.dependencies x := by
        rw [edges, if_neg differs]
      exact (kept.justified x text defined).insert rfl same differs (same ▸ apart)
  obtain ⟨graph, _, justified⟩ := refresh_justified
    (t := ⟨t.values.insert name value, t.formulas.erase name, t.graph.clearDependencies name⟩)
    wellFormed (dependentsFollow_order wellFormed name) others changed
  exact ⟨by rw [graph]; exact wellFormed, justified⟩

theorem Kept.setFormula {next : ParameterTable} {name text : String} {updated : List String}
    (kept : t.Kept) (changed : t.setFormula name text = (next, .ok updated)) : next.Kept := by
  rw [ParameterTable.setFormula] at changed
  split at changed
  · simp at changed
  · rename_i result _
    split at changed
    · simp at changed
    · rename_i graph replaced
      obtain ⟨wellFormed, _, edges⟩ := kept.wellFormed.setDependencies replaced
      dsimp only at changed
      split at changed
      · simp at changed
      · rename_i value evaluated
        have others : ∀ x text', (t.formulas.insert name text).get? x = some text' →
            x ∉ graph.propagationOrder name →
            Justified ⟨t.values.insert name value, t.formulas.insert name text, graph⟩ x text' := by
          intro x text' defined away
          have apart := not_mem_dependencies_of_not_mem_order wellFormed away
          rw [Table.get?_insert] at defined
          split at defined
          · rename_i here
            obtain rfl := Option.some.inj defined
            subst here
            exact justified_insert (t := t) rfl evaluated fun edge =>
              wellFormed.not_follows_self x (.single edge)
          · rename_i differs
            exact (kept.justified x text' defined).insert rfl (edges x differs) differs
              (edges x differs ▸ apart)
        obtain ⟨same, _, justified⟩ := refresh_justified
          (t := ⟨t.values.insert name value, t.formulas.insert name text, graph⟩)
          wellFormed (dependentsFollow_order wellFormed name) others changed
        exact ⟨by rw [same]; exact wellFormed, justified⟩

theorem Reached.kept (reached : Reached t) : t.Kept := by
  induction reached with
  | empty => exact .empty
  | setValue _ changed ih => exact ih.setValue changed
  | setFormula _ changed ih => exact ih.setFormula changed

/-- **What a formula's name holds.**  In every reached table a name defined by a
formula holds the value that its formula gives over some values which agree with those
of the table on every recorded dependency and know no other names.  Hence, if each name
that the formula mentions is a recorded dependency or has no value, or if the formula
can be evaluated and reads recorded dependencies only, the formula can be evaluated
over the values of the table and the name holds the result. -/
theorem held_of_recorded {name text : String} (reached : Reached t)
    (defined : t.formula? name = some text) :
    ∃ held, t.get? name = some held ∧
      (∃ old value, Formula.evaluateQuantity text old = .ok value ∧ held.same value = true ∧
        (∀ d ∈ t.graph.dependencies name, old.get? d = t.values.get? d) ∧
        ∀ d, t.values.get? d = none → old.get? d = none) ∧
      (∀ formula, Formula.parse text = .ok formula →
        (∀ d ∈ formula.mentioned, d ∈ t.graph.dependencies name ∨ t.get? d = none) →
        ∃ value, Formula.evaluateQuantity text t.values = .ok value ∧ held.same value = true) ∧
      ∀ result, evaluation t.values text = .ok result →
        (∀ d ∈ result.dependencies, d ∈ t.graph.dependencies name) →
        ∃ value, Formula.evaluateQuantity text t.values = .ok value ∧ held.same value = true := by
  obtain ⟨old, held, value, holds, evaluated, same, agree, absent⟩ :=
    reached.kept.justified name text defined
  have scopes : ∀ d, old.get? d = t.values.get? d →
      Formula.Scope.ofQuantities old d = Formula.Scope.ofQuantities t.values d := by
    intro d equal
    simp only [Formula.Scope.ofQuantities, equal]
  refine ⟨held, holds, ⟨old, value, evaluated, same, agree, absent⟩, ?_, ?_⟩
  · intro formula parsed mentioned
    refine ⟨value, ?_, same⟩
    rw [← evaluated]
    refine (evaluateQuantity_congr (Formula.Evaluator.evaluate_congr _ parsed fun d there =>
      scopes d ?_)).symm
    rcases mentioned d there with recorded | none
    · exact agree d recorded
    · rw [absent d none, ← get?, none]
  · intro result evaluates recorded
    refine ⟨value, ?_, same⟩
    rw [← evaluated]
    refine (evaluateQuantity_congr ?_).symm
    rw [evaluates]
    refine Formula.Evaluator.evaluate_of_dependencies _ (fun d none => ?_) evaluates
      fun d there => scopes d (agree d (recorded d there))
    simp only [Formula.Scope.ofQuantities, Option.map_eq_none_iff] at none ⊢
    exact absent d none

/-! ## Two tables -/

theorem setFormula_eq {name text : String} {result : Formula.Evaluation}
    (graph : DependencyGraph) {value : Quantity}
    (evaluated : evaluation t.values text = .ok result)
    (edges : t.graph.setDependencies name result.dependencies = (graph, .ok ()))
    (quantity : Formula.evaluateQuantity text t.values = .ok value) :
    t.setFormula name text =
      propagate ⟨t.values.insert name value, t.formulas.insert name text, graph⟩ name := by
  rw [setFormula]
  simp only [evaluated, edges, quantity]
  rfl

theorem evaluateQuantity_eq {values : Table String Quantity} {text : String}
    {result : Formula.Evaluation} (evaluated : evaluation values text = .ok result) :
    Formula.evaluateQuantity text values =
      match result.value with
      | .quantity q => .ok q
      | other => other.toFloat "value" >>= fun x => .ok (.plain x) := by
  unfold evaluation at evaluated
  rw [Formula.evaluateQuantity, evaluated]
  obtain ⟨value, _⟩ := result
  cases value <;> rfl

/-- A text of one letter is one token. -/
theorem tokenize_letter {text : String} {c : Char} {token : Formula.Token}
    (letter : text.toList = [c]) (space : Formula.isSpace c = false)
    (read : Formula.lexeme c [] = .ok (token, 0)) :
    Formula.tokenize text = .ok [⟨token, 0⟩, ⟨.finish, c.utf8Size⟩] := by
  have ends : Formula.tokensFrom c.utf8Size [] = .ok [⟨.finish, c.utf8Size⟩] := by
    rw [Formula.tokensFrom]
  rw [Formula.tokenize, letter, Formula.tokensFrom, if_neg (by simp [space]), read]
  simp only [List.take_nil, List.drop_nil, Text.byteLength, Nat.zero_add, Nat.add_zero, ends]
  rfl

theorem parse_a : Formula.parse "a" = .ok (.name 0 "a") := by
  rw [Formula.parse, tokenize_letter rfl rfl rfl]
  rfl

theorem parse_e : Formula.parse "e" = .ok (.name 0 "e") := by
  rw [Formula.parse, tokenize_letter rfl rfl rfl]
  rfl

/-- A formula of one name that has a value reads that name. -/
theorem evaluation_name (values : Table String Quantity) {text name : String} {offset : Nat}
    {q : Quantity} (parsed : Formula.parse text = .ok (.name offset name))
    (read : values.get? name = some q) :
    evaluation values text = .ok ⟨.ofQuantity q, [name]⟩ := by
  refine (Formula.Evaluator.evaluate_eq_ok _).2 ⟨_, [name], parsed, ?_, rfl⟩
  simp only [Formula.Evaluator.run, Formula.Scope.ofQuantities, read, Option.map_some]

/-- A formula of one constant that has no value reads no name. -/
theorem evaluation_constant (values : Table String Quantity) {text name : String} {offset : Nat}
    {value : Value} (parsed : Formula.parse text = .ok (.name offset name))
    (absent : values.get? name = none) (constant : Formula.constant? name = some value) :
    evaluation values text = .ok ⟨value, []⟩ := by
  refine (Formula.Evaluator.evaluate_eq_ok _).2 ⟨_, [], parsed, ?_, rfl⟩
  simp only [Formula.Evaluator.run, Formula.Scope.ofQuantities, absent, Option.map_none, constant]

def volts (magnitude : Float) : Quantity := ⟨magnitude, ⟨"V", 1.0, { voltage := 1 }⟩⟩

/-- A voltage and a name that follows it. -/
def follower : ParameterTable where
  values := Table.ofList [("a", volts 1.0), ("x", volts 1.0)]
  formulas := Table.ofList [("x", "a")]
  graph := ⟨[⟨"x", [1], []⟩, ⟨"a", [], [0]⟩]⟩

theorem follower_reached : Reached follower := by
  have given : ParameterTable.empty.setValue "a" (volts 1.0) =
      ((ParameterTable.empty.setValue "a" (volts 1.0)).1, .ok ["a"]) := rfl
  have evaluated := evaluation_name (ParameterTable.empty.setValue "a" (volts 1.0)).1.values
    (q := volts 1.0) parse_a rfl
  have defined : (ParameterTable.empty.setValue "a" (volts 1.0)).1.setFormula "x" "a" =
      (follower, .ok ["x"]) := by
    rw [setFormula_eq follower.graph evaluated rfl (evaluateQuantity_eq evaluated)]
    rfl
  exact .setFormula (.setValue .empty given) defined

theorem held_of_recorded_follower :
    ∃ held value, follower.get? "x" = some held ∧
      Formula.evaluateQuantity "a" follower.values = .ok value ∧ held.same value = true := by
  have defined : follower.formula? "x" = some "a" := rfl
  obtain ⟨held, holds, _, mentioned, _⟩ := held_of_recorded follower_reached defined
  obtain ⟨value, evaluated, same⟩ := mentioned (.name 0 "a") parse_a fun d there => by
    obtain rfl := List.mem_singleton.1 there
    exact .inl (by decide)
  exact ⟨held, value, holds, evaluated, same⟩

/-- A name defined by a constant that is given a value later. -/
def outdated : ParameterTable where
  values := Table.ofList [("x", .plain (2.71828182845904523536 * 1.0)), ("e", volts 1.0)]
  formulas := Table.ofList [("x", "e")]
  graph := ⟨[⟨"x", [], []⟩]⟩

theorem outdated_reached : Reached outdated := by
  have evaluated := evaluation_constant Table.empty parse_e rfl rfl
  have defined : ParameterTable.empty.setFormula "x" "e" =
      ((ParameterTable.empty.setFormula "x" "e").1, .ok ["x"]) ∧
      (ParameterTable.empty.setFormula "x" "e").1.setValue "e" (volts 1.0) =
        (outdated, .ok ["e"]) := by
    rw [setFormula_eq (t := ParameterTable.empty) ⟨[⟨"x", [], []⟩]⟩ evaluated rfl
      (evaluateQuantity_eq evaluated)]
    exact ⟨rfl, rfl⟩
  exact .setValue (.setFormula .empty defined.1) defined.2

/-- A change of a constant does not reach the names that were defined by it. -/
theorem formula_not_held : ∃ t, Reached t ∧ t.formula? "x" = some "e" ∧
    ∃ held value, t.get? "x" = some held ∧
      Formula.evaluateQuantity "e" t.values = .ok value ∧ held.same value = false := by
  have evaluated := evaluation_name outdated.values (q := volts 1.0) parse_e rfl
  refine ⟨outdated, outdated_reached, rfl, _, volts 1.0, rfl, evaluateQuantity_eq evaluated, ?_⟩
  by_contra same
  exact absurd (Quantity.same_dimension (Bool.of_not_eq_false same)) (by decide)

end ParameterTable

end PulseSequencer
