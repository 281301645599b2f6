import PulseSequencer.Formula.Evaluator
import PulseSequencer.Proofs.Except
import Mathlib.Tactic.Tauto

/-
# PulseSequencer.Proofs.Formula.Reading -- a value depends on the names it reads

A formula mentions names, and an evaluation reads some of them: the operand that `and`
or `or` leaves out is not read.  The value depends on the mentioned names alone
(`run_congr`), and a value once found on the names that were read alone, as long as no
name comes in that was not there (`run_of_reads`).  So the names that an evaluation
reports determine it (`determined_by_dependencies`).
-/

namespace PulseSequencer

set_option autoImplicit false

mutual

/-- The names that a formula mentions, in the order of its text. -/
def Formula.mentioned : Formula → List String
  | .int _ _ | .float _ _ | .quantity _ _ _ | .text _ _ => []
  | .name _ s => [s]
  | .list _ items => Formula.mentionedItems items
  | .dict _ items => Formula.mentionedPairs items
  | .unary _ _ operand => operand.mentioned
  | .binary _ _ left right => left.mentioned ++ right.mentioned
  | .call _ _ args => Formula.mentionedItems args
  | .index _ target key => target.mentioned ++ key.mentioned

def Formula.mentionedItems : List Formula → List String
  | [] => []
  | item :: rest => item.mentioned ++ Formula.mentionedItems rest

def Formula.mentionedPairs : List (Formula × Formula) → List String
  | [] => []
  | (key, item) :: rest => key.mentioned ++ item.mentioned ++ Formula.mentionedPairs rest

end

namespace Formula.Evaluator

variable (e : Evaluator) {scope other : Scope}

mutual

/-- **Only mentioned names matter.** -/
theorem run_congr : ∀ formula : Formula,
    (∀ name ∈ formula.mentioned, other name = scope name) →
      e.run other formula = e.run scope formula
  | .int _ _, _ | .float _ _, _ | .quantity _ _ _, _ | .text _ _, _ => by simp only [run]
  | .name _ s, same => by
      simp only [run, same s (by simp [Formula.mentioned])]
  | .list _ items, same => by
      simp only [run, runItems_congr items (by simpa only [Formula.mentioned] using same)]
  | .dict _ items, same => by
      simp only [run, runPairs_congr [] items (by simpa only [Formula.mentioned] using same)]
  | .unary _ _ operand, same => by
      simp only [run, run_congr operand (by simpa only [Formula.mentioned] using same)]
  | .binary _ _ left right, same => by
      simp only [Formula.mentioned, List.mem_append] at same
      simp only [run, run_congr left fun name there => same name (.inl there),
        run_congr right fun name there => same name (.inr there)]
  | .call _ _ args, same => by
      simp only [run, runItems_congr args (by simpa only [Formula.mentioned] using same)]
  | .index _ target key, same => by
      simp only [Formula.mentioned, List.mem_append] at same
      simp only [run, run_congr target fun name there => same name (.inl there),
        run_congr key fun name there => same name (.inr there)]

theorem runItems_congr : ∀ items : List Formula,
    (∀ name ∈ Formula.mentionedItems items, other name = scope name) →
      e.runItems other items = e.runItems scope items
  | [], _ => by simp only [runItems]
  | item :: rest, same => by
      simp only [Formula.mentionedItems, List.mem_append] at same
      simp only [runItems, run_congr item fun name there => same name (.inl there),
        runItems_congr rest fun name there => same name (.inr there)]

theorem runPairs_congr (entries : List (String × Value)) : ∀ items : List (Formula × Formula),
    (∀ name ∈ Formula.mentionedPairs items, other name = scope name) →
      e.runPairs other entries items = e.runPairs scope entries items
  | [], _ => by simp only [runPairs]
  | (key, item) :: rest, same => by
      simp only [Formula.mentionedPairs, List.mem_append] at same
      simp only [runPairs, run_congr key fun name there => same name (.inl (.inl there)),
        run_congr item fun name there => same name (.inl (.inr there))]
      congr 1
      funext k
      congr 1
      funext v
      rw [runPairs_congr _ rest fun name there => same name (.inr there)]

end

/-- With both operands evaluated, the names of both were read. -/
theorem names_of_both {op : BinaryOp} {a b value : Value} {read more names : List String}
    (rest : (if op = .and ∨ op = .or then pure (b, read ++ more)
      else do return (← applyBinary op a b, read ++ more) :
        Except FormulaError (Reading Value)) = .ok (value, names)) : names = read ++ more := by
  split at rest
  · exact (Prod.mk.inj (Except.ok.inj rest)).2.symm
  · obtain ⟨_, _, rest⟩ := bind_eq_ok.1 rest
    exact (Prod.mk.inj (Except.ok.inj rest)).2.symm

mutual

/-- **Only read names matter**, as long as what was absent stays absent: a scope that
gives the same to each name that was read gives the same value and reads the same. -/
theorem run_of_reads (absent : ∀ name, scope name = none → other name = none) :
    ∀ (formula : Formula) {value : Value} {names : List String},
      e.run scope formula = .ok (value, names) → (∀ name ∈ names, other name = scope name) →
        e.run other formula = .ok (value, names)
  | .int _ _, _, _, ran, _ | .float _ _, _, _, ran, _ | .quantity _ _ _, _, _, ran, _
  | .text _ _, _, _, ran, _ => by
      simpa only [run] using ran
  | .name _ s, value, names, ran, same => by
      rw [run] at ran ⊢
      cases found : scope s with
      | some v =>
          rw [found] at ran
          obtain ⟨rfl, rfl⟩ := Prod.mk.inj (Except.ok.inj ran)
          rw [same s (List.mem_singleton.2 rfl), found]
      | none =>
          rw [found] at ran
          rw [absent s found]
          exact ran
  | .list _ items, value, names, ran, same => by
      simp only [run, bind_eq_ok] at ran ⊢
      obtain ⟨⟨values, read⟩, ranItems, rest⟩ := ran
      obtain ⟨rfl, rfl⟩ := Prod.mk.inj (Except.ok.inj rest)
      exact ⟨_, runItems_of_reads absent items ranItems same, rfl⟩
  | .dict _ items, value, names, ran, same => by
      simp only [run, bind_eq_ok] at ran ⊢
      obtain ⟨⟨values, read⟩, ranItems, rest⟩ := ran
      obtain ⟨rfl, rfl⟩ := Prod.mk.inj (Except.ok.inj rest)
      exact ⟨_, runPairs_of_reads absent [] items ranItems same, rfl⟩
  | .unary _ op operand, value, names, ran, same => by
      simp only [run, bind_eq_ok] at ran ⊢
      obtain ⟨⟨v, read⟩, ranOperand, w, applied, rest⟩ := ran
      obtain ⟨rfl, rfl⟩ := Prod.mk.inj (Except.ok.inj rest)
      exact ⟨_, run_of_reads absent operand ranOperand same, w, applied, rfl⟩
  | .binary _ op left right, value, names, ran, same => by
      rw [run, bind_eq_ok] at ran ⊢
      obtain ⟨⟨a, read⟩, ranLeft, rest⟩ := ran
      dsimp only at rest
      split at rest
      · -- the left operand alone decides, and only its names were read
        rename_i decided
        obtain ⟨rfl, rfl⟩ := Prod.mk.inj (Except.ok.inj rest)
        exact ⟨_, run_of_reads absent left ranLeft same, if_pos decided⟩
      · rename_i undecided
        obtain ⟨⟨b, more⟩, ranRight, rest⟩ := bind_eq_ok.1 rest
        obtain rfl := names_of_both rest
        refine ⟨_, run_of_reads absent left ranLeft fun name there => ?_, ?_⟩
        · exact same name (List.mem_append_left _ there)
        · dsimp only
          rw [if_neg undecided, bind_eq_ok]
          refine ⟨_, run_of_reads absent right ranRight fun name there => ?_, rest⟩
          exact same name (List.mem_append_right _ there)
  | .call _ function args, value, names, ran, same => by
      simp only [run, bind_eq_ok] at ran ⊢
      obtain ⟨⟨values, read⟩, ranItems, w, applied, rest⟩ := ran
      obtain ⟨rfl, rfl⟩ := Prod.mk.inj (Except.ok.inj rest)
      exact ⟨_, runItems_of_reads absent args ranItems same, w, applied, rfl⟩
  | .index _ target key, value, names, ran, same => by
      simp only [run, bind_eq_ok] at ran ⊢
      obtain ⟨⟨t, read⟩, ranTarget, ⟨k, more⟩, ranKey, w, applied, rest⟩ := ran
      obtain ⟨rfl, rfl⟩ := Prod.mk.inj (Except.ok.inj rest)
      refine ⟨_, run_of_reads absent target ranTarget fun name there => ?_, _,
        run_of_reads absent key ranKey fun name there => ?_, w, applied, rfl⟩
      · exact same name (List.mem_append_left _ there)
      · exact same name (List.mem_append_right _ there)

theorem runItems_of_reads (absent : ∀ name, scope name = none → other name = none) :
    ∀ (items : List Formula) {values : List Value} {names : List String},
      e.runItems scope items = .ok (values, names) → (∀ name ∈ names, other name = scope name) →
        e.runItems other items = .ok (values, names)
  | [], _, _, ran, _ => by simpa only [runItems] using ran
  | item :: rest, values, names, ran, same => by
      simp only [runItems, bind_eq_ok] at ran ⊢
      obtain ⟨⟨v, read⟩, ranItem, ⟨vs, more⟩, ranRest, last⟩ := ran
      obtain ⟨rfl, rfl⟩ := Prod.mk.inj (Except.ok.inj last)
      refine ⟨_, run_of_reads absent item ranItem fun name there => ?_, _,
        runItems_of_reads absent rest ranRest fun name there => ?_, rfl⟩
      · exact same name (List.mem_append_left _ there)
      · exact same name (List.mem_append_right _ there)

theorem runPairs_of_reads (absent : ∀ name, scope name = none → other name = none)
    (entries : List (String × Value)) :
    ∀ (items : List (Formula × Formula)) {all : List (String × Value)} {names : List String},
      e.runPairs scope entries items = .ok (all, names) →
        (∀ name ∈ names, other name = scope name) →
          e.runPairs other entries items = .ok (all, names)
  | [], _, _, ran, _ => by simpa only [runPairs] using ran
  | (key, item) :: rest, all, names, ran, same => by
      simp only [runPairs, bind_eq_ok] at ran ⊢
      obtain ⟨⟨k, read⟩, ranKey, ⟨v, more⟩, ranItem, ⟨vs, others⟩, ranRest, last⟩ := ran
      obtain ⟨rfl, rfl⟩ := Prod.mk.inj (Except.ok.inj last)
      refine ⟨_, run_of_reads absent key ranKey fun name there => ?_, _,
        run_of_reads absent item ranItem fun name there => ?_, _,
        runPairs_of_reads absent _ rest ranRest fun name there => ?_, rfl⟩
      · exact same name (List.mem_append_left _ (List.mem_append_left _ there))
      · exact same name (List.mem_append_left _ (List.mem_append_right _ there))
      · exact same name (List.mem_append_right _ there)

end

/-- Names that a scope has, and that are mentioned. -/
def Found (scope : Scope) (mentioned names : List String) : Prop :=
  ∀ name ∈ names, (scope name).isSome = true ∧ name ∈ mentioned

theorem Found.nil {mentioned : List String} : Found scope mentioned [] :=
  fun _ there => absurd there List.not_mem_nil

theorem Found.append {mentioned others names more : List String}
    (first : Found scope mentioned names) (second : Found scope others more) :
    Found scope (mentioned ++ others) (names ++ more) :=
  List.forall_mem_append.2 ⟨fun name there => (first name there).imp_right (List.mem_append_left _),
    fun name there => (second name there).imp_right (List.mem_append_right _)⟩

mutual

/-- **Only names of the scope are read**, and only where the formula mentions them. -/
theorem found_of_run : ∀ (formula : Formula) {value : Value} {names : List String},
    e.run scope formula = .ok (value, names) → Found scope formula.mentioned names
  | .int _ _, _, _, ran | .float _ _, _, _, ran | .quantity _ _ _, _, _, ran
  | .text _ _, _, _, ran => by
      rw [run] at ran
      obtain ⟨_, rfl⟩ := Prod.mk.inj (Except.ok.inj ran)
      exact .nil
  | .name _ s, value, names, ran => by
      rw [run] at ran
      split at ran
      · rename_i v found
        obtain ⟨_, rfl⟩ := Prod.mk.inj (Except.ok.inj ran)
        intro name there
        obtain rfl := List.mem_singleton.1 there
        exact ⟨found ▸ rfl, there⟩
      · split at ran
        · obtain ⟨_, rfl⟩ := Prod.mk.inj (Except.ok.inj ran)
          exact .nil
        · cases ran
  | .list _ items, value, names, ran => by
      simp only [run, bind_eq_ok] at ran
      obtain ⟨⟨values, read⟩, ranItems, rest⟩ := ran
      obtain ⟨_, rfl⟩ := Prod.mk.inj (Except.ok.inj rest)
      exact found_of_runItems items ranItems
  | .dict _ items, value, names, ran => by
      simp only [run, bind_eq_ok] at ran
      obtain ⟨⟨values, read⟩, ranItems, rest⟩ := ran
      obtain ⟨_, rfl⟩ := Prod.mk.inj (Except.ok.inj rest)
      exact found_of_runPairs [] items ranItems
  | .unary _ op operand, value, names, ran => by
      simp only [run, bind_eq_ok] at ran
      obtain ⟨⟨v, read⟩, ranOperand, w, _, rest⟩ := ran
      obtain ⟨_, rfl⟩ := Prod.mk.inj (Except.ok.inj rest)
      exact found_of_run operand ranOperand
  | .binary _ op left right, value, names, ran => by
      rw [run, bind_eq_ok] at ran
      obtain ⟨⟨a, read⟩, ranLeft, rest⟩ := ran
      have first := found_of_run left ranLeft
      dsimp only at rest
      split at rest
      · obtain ⟨_, rfl⟩ := Prod.mk.inj (Except.ok.inj rest)
        exact fun name there => (first name there).imp_right (List.mem_append_left _)
      · obtain ⟨⟨b, more⟩, ranRight, rest⟩ := bind_eq_ok.1 rest
        obtain rfl := names_of_both rest
        exact first.append (found_of_run right ranRight)
  | .call _ function args, value, names, ran => by
      simp only [run, bind_eq_ok] at ran
      obtain ⟨⟨values, read⟩, ranItems, w, _, rest⟩ := ran
      obtain ⟨_, rfl⟩ := Prod.mk.inj (Except.ok.inj rest)
      exact found_of_runItems args ranItems
  | .index _ target key, value, names, ran => by
      simp only [run, bind_eq_ok] at ran
      obtain ⟨⟨t, read⟩, ranTarget, ⟨k, more⟩, ranKey, w, _, rest⟩ := ran
      obtain ⟨_, rfl⟩ := Prod.mk.inj (Except.ok.inj rest)
      exact (found_of_run target ranTarget).append (found_of_run key ranKey)

theorem found_of_runItems : ∀ (items : List Formula) {values : List Value} {names : List String},
    e.runItems scope items = .ok (values, names) →
      Found scope (Formula.mentionedItems items) names
  | [], _, _, ran => by
      rw [runItems] at ran
      obtain ⟨_, rfl⟩ := Prod.mk.inj (Except.ok.inj ran)
      exact .nil
  | item :: rest, values, names, ran => by
      simp only [runItems, bind_eq_ok] at ran
      obtain ⟨⟨v, read⟩, ranItem, ⟨vs, more⟩, ranRest, last⟩ := ran
      obtain ⟨_, rfl⟩ := Prod.mk.inj (Except.ok.inj last)
      exact (found_of_run item ranItem).append (found_of_runItems rest ranRest)

theorem found_of_runPairs (entries : List (String × Value)) :
    ∀ (items : List (Formula × Formula)) {all : List (String × Value)} {names : List String},
      e.runPairs scope entries items = .ok (all, names) →
        Found scope (Formula.mentionedPairs items) names
  | [], _, _, ran => by
      rw [runPairs] at ran
      obtain ⟨_, rfl⟩ := Prod.mk.inj (Except.ok.inj ran)
      exact .nil
  | (key, item) :: rest, all, names, ran => by
      simp only [runPairs, bind_eq_ok] at ran
      obtain ⟨⟨k, read⟩, ranKey, ⟨v, more⟩, ranItem, ⟨vs, others⟩, ranRest, last⟩ := ran
      obtain ⟨_, rfl⟩ := Prod.mk.inj (Except.ok.inj last)
      exact ((found_of_run key ranKey).append (found_of_run item ranItem)).append
        (found_of_runPairs _ rest ranRest)

end

/-! ## Reported dependencies -/

theorem mem_insertName {name other : String} {names : List String} :
    other ∈ insertName name names ↔ other = name ∨ other ∈ names := by
  induction names with
  | nil => simp [insertName]
  | cons head rest ih =>
      rw [insertName]
      split
      · rename_i same
        simp [same]
      · split
        · simp
        · simp only [List.mem_cons, ih]
          tauto

theorem mem_foldl_insertName {other : String} (names known : List String) :
    other ∈ names.foldl (fun known name => insertName name known) known ↔
      other ∈ names ∨ other ∈ known := by
  induction names generalizing known with
  | nil => simp
  | cons name rest ih =>
      simp only [List.foldl_cons, ih, mem_insertName, List.mem_cons]
      tauto

/-- An evaluation reports exactly the names that it read. -/
theorem evaluateFormula_eq_ok {formula : Formula} {r : Evaluation} :
    e.evaluateFormula formula scope = .ok r ↔
      ∃ names, e.run scope formula = .ok (r.value, names) ∧
        r.dependencies = names.foldl (fun known name => insertName name known) [] := by
  rw [evaluateFormula, bind_eq_ok]
  constructor
  · rintro ⟨⟨value, names⟩, ran, rest⟩
    obtain rfl := Except.ok.inj rest
    exact ⟨names, ran, rfl⟩
  · rintro ⟨names, ran, reported⟩
    refine ⟨_, ran, ?_⟩
    dsimp only
    rw [← reported]
    rfl

theorem evaluate_eq_ok {text : String} {r : Evaluation} :
    e.evaluate text scope = .ok r ↔
      ∃ formula names, parse text = .ok formula ∧ e.run scope formula = .ok (r.value, names) ∧
        r.dependencies = names.foldl (fun known name => insertName name known) [] := by
  simp only [evaluate, bind_eq_ok, evaluateFormula_eq_ok, exists_and_left]

/-- A scope with the same reported names, and no new ones, gives the same evaluation. -/
theorem evaluateFormula_of_dependencies {formula : Formula} {r : Evaluation}
    (absent : ∀ name, scope name = none → other name = none)
    (evaluated : e.evaluateFormula formula scope = .ok r)
    (same : ∀ name ∈ r.dependencies, other name = scope name) :
    e.evaluateFormula formula other = .ok r := by
  obtain ⟨names, ran, reported⟩ := (evaluateFormula_eq_ok e).1 evaluated
  refine (evaluateFormula_eq_ok e).2 ⟨names, ?_, reported⟩
  refine run_of_reads e absent formula ran fun name there => same name ?_
  rw [reported, mem_foldl_insertName]
  exact .inl there

theorem evaluate_of_dependencies {text : String} {r : Evaluation}
    (absent : ∀ name, scope name = none → other name = none)
    (evaluated : e.evaluate text scope = .ok r)
    (same : ∀ name ∈ r.dependencies, other name = scope name) :
    e.evaluate text other = .ok r := by
  obtain ⟨formula, parsed, evaluated⟩ := bind_eq_ok.1 evaluated
  exact bind_eq_ok.2 ⟨formula, parsed, evaluateFormula_of_dependencies e absent evaluated same⟩

/-- **The reported names determine an evaluation.**  They are names of the scope that the
formula mentions, and two scopes of the same names that agree on them give the same value
and the same report. -/
theorem determined_by_dependencies {formula : Formula} {r : Evaluation}
    (evaluated : e.evaluateFormula formula scope = .ok r) :
    (∀ name ∈ r.dependencies, (scope name).isSome = true ∧ name ∈ formula.mentioned) ∧
    ∀ other : Scope, (∀ name, (other name).isSome = (scope name).isSome) →
      (∀ name ∈ r.dependencies, other name = scope name) →
        e.evaluateFormula formula other = .ok r := by
  constructor
  · intro name there
    obtain ⟨names, ran, reported⟩ := (evaluateFormula_eq_ok e).1 evaluated
    rw [reported, mem_foldl_insertName] at there
    exact found_of_run e formula ran name (there.resolve_right List.not_mem_nil)
  · intro other bound agree
    refine evaluateFormula_of_dependencies e (fun name none' => ?_) evaluated agree
    have unbound := bound name
    rw [none'] at unbound
    exact Option.not_isSome_iff_eq_none.1 (Bool.eq_false_iff.1 unbound)

/-- The right operand of `x or f(y)` is not read if `x` is true. -/
theorem determined_by_dependencies_or :
    let formula : Formula := .binary 2 .or (.name 0 "x") (.call 5 "f" [.name 7 "y"])
    let scope : Scope := fun name =>
      if name = "x" then some (.int 1) else if name = "y" then some (.int 0) else none
    let other : Scope := fun name =>
      if name = "x" then some (.int 1) else if name = "y" then some (.text "?") else none
    (∀ name, (other name).isSome = (scope name).isSome) ∧
      default.evaluateFormula formula scope = .ok ⟨.int 1, ["x"]⟩ ∧
      (∀ name ∈ ["x"], other name = scope name) ∧
      default.evaluateFormula formula other = .ok ⟨.int 1, ["x"]⟩ := by
  intro formula scope other
  have bound : ∀ name, (other name).isSome = (scope name).isSome := by
    intro name
    dsimp only [scope, other]
    split
    · rfl
    · split <;> rfl
  have evaluated : default.evaluateFormula formula scope = .ok ⟨.int 1, ["x"]⟩ := rfl
  have agree : ∀ name ∈ ["x"], other name = scope name := by
    intro name there
    obtain rfl := List.mem_singleton.1 there
    rfl
  exact ⟨bound, evaluated, agree,
    (determined_by_dependencies default evaluated).2 other bound agree⟩

theorem evaluate_congr {text : String} {formula : Formula} (parsed : parse text = .ok formula)
    (same : ∀ name ∈ formula.mentioned, other name = scope name) :
    e.evaluate text other = e.evaluate text scope := by
  rw [evaluate, evaluate, parsed]
  show e.evaluateFormula formula other = e.evaluateFormula formula scope
  rw [evaluateFormula, evaluateFormula, run_congr e formula same]

end Formula.Evaluator

end PulseSequencer
