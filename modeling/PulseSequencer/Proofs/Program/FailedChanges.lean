import PulseSequencer.Proofs.DependencyGraph.History
import PulseSequencer.Proofs.Program.ParameterConsistency

/-
# PulseSequencer.Proofs.Program.FailedChanges -- what a failed change leaves behind

A change of one name can fail at four places.  A formula that cannot be evaluated, and
one that would follow from itself, are refused before anything is written.  A formula
whose value is no number has its edges drawn already, and a wave that comes to a formula
it cannot evaluate has gone through everything before it.  None of that is taken back:
the name that was changed keeps what it was given, and the table holds new values up to
the failing name and old ones from there on.  Main statement: `left_by_failure`.
-/

namespace PulseSequencer.ParameterTable

set_option autoImplicit false

variable {t next : ParameterTable}

/-! ## Changes -/

/-- A change of one name. -/
inductive Change where
  | value (name : String) (value : Quantity)
  | formula (name text : String)

def Change.name : Change → String
  | .value name _ => name
  | .formula name _ => name

def change (t : ParameterTable) : Change → Outcome
  | .value name value => t.setValue name value
  | .formula name text => t.setFormula name text

/-- The tables that changes lead to, whether or not they fail. -/
inductive Reachable : ParameterTable → Prop
  | empty : Reachable ParameterTable.empty
  | change {t : ParameterTable} (reachable : Reachable t) (c : Change) :
      Reachable (t.change c).1

/-- Two tables with the same values, formulas and edges. -/
structure Untouched (t next : ParameterTable) : Prop where
  values : next.values = t.values
  formulas : next.formulas = t.formulas
  edges : ∀ name d, d ∈ next.graph.dependencies name ↔ d ∈ t.graph.dependencies name

theorem Untouched.refl (t : ParameterTable) : t.Untouched t := ⟨rfl, rfl, fun _ _ => Iff.rfl⟩

theorem Reached.reachable (reached : Reached t) : Reachable t := by
  induction reached with
  | empty => exact .empty
  | @setValue t next name value updated _ changed ih =>
      have step := ih.change (.value name value)
      rwa [ParameterTable.change, changed] at step
  | @setFormula t next name text updated _ changed ih =>
      have step := ih.change (.formula name text)
      rwa [ParameterTable.change, changed] at step

/-! ## A wave that may fail -/

/-- A wave writes values only, and those of the names on its list. -/
theorem refresh_frame {names updated : List String} {outcome : Except ParameterError (List String)}
    (refreshed : t.refresh updated names = (next, outcome)) :
    next.graph = t.graph ∧ next.formulas = t.formulas ∧
      ∀ y, y ∉ names → next.get? y = t.get? y := by
  induction names generalizing t updated with
  | nil =>
      obtain rfl := (Prod.mk.inj refreshed).1
      exact ⟨rfl, rfl, fun _ _ => rfl⟩
  | cons name rest ih =>
      rw [refresh] at refreshed
      split at refreshed
      · obtain ⟨graph, formulas, values⟩ := ih refreshed
        exact ⟨graph, formulas, fun y away => values y fun there => away (.tail _ there)⟩
      · split at refreshed
        · obtain rfl := (Prod.mk.inj refreshed).1
          exact ⟨rfl, rfl, fun _ _ => rfl⟩
        · split at refreshed
          · obtain ⟨graph, formulas, values⟩ := ih refreshed
            exact ⟨graph, formulas, fun y away => values y fun there => away (.tail _ there)⟩
          · obtain ⟨graph, formulas, values⟩ := ih refreshed
            refine ⟨graph, formulas, fun y away => ?_⟩
            have differs : y ≠ name := fun here => away (here ▸ List.mem_cons_self ..)
            refine (values y fun there => away (.tail _ there)).trans ?_
            simp only [get?, write, Table.get?_insert, if_neg differs]

/-- A wave that fails is a wave over the names before one whose formula cannot be evaluated. -/
theorem refresh_stops {names updated : List String} {error : ParameterError}
    (failed : t.refresh updated names = (next, .error error)) :
    ∃ done x behind text e all, names = done ++ x :: behind ∧
      t.refresh updated done = (next, .ok all) ∧ next.formula? x = some text ∧
      Formula.evaluateQuantity text next.values = .error e ∧ error = .formula e := by
  induction names generalizing t updated with
  | nil => simp [refresh] at failed
  | cons name rest ih =>
      rw [refresh] at failed
      split at failed
      · rename_i undefined
        obtain ⟨done, x, behind, text, e, all, rfl, refreshed, stopped⟩ := ih failed
        refine ⟨name :: done, x, behind, text, e, all, rfl, ?_, stopped⟩
        rw [refresh, undefined]
        exact refreshed
      · rename_i text defined
        split at failed
        · rename_i e fails
          obtain ⟨rfl, told⟩ := Prod.mk.inj failed
          exact ⟨[], name, rest, text, e, updated, rfl, rfl, defined, fails,
            (Except.error.inj told).symm⟩
        · rename_i value evaluated
          split at failed
          · rename_i holds
            obtain ⟨done, x, behind, text', e, all, rfl, refreshed, stopped⟩ := ih failed
            refine ⟨name :: done, x, behind, text', e, all, rfl, ?_, stopped⟩
            simp only [refresh, defined, evaluated, if_pos holds, refreshed]
          · rename_i differs
            obtain ⟨done, x, behind, text', e, all, rfl, refreshed, stopped⟩ := ih failed
            refine ⟨name :: done, x, behind, text', e, all, rfl, ?_, stopped⟩
            simp only [refresh, defined, evaluated, if_neg differs, refreshed]

theorem DependentsFollow.mem {g : DependencyGraph} {names : List String} {x y : String}
    (follow : DependentsFollow g names) (listed : y ∈ names) (edge : y ∈ g.dependencies x) :
    x ∈ names := by
  induction names with
  | nil => exact absurd listed List.not_mem_nil
  | cons name rest ih =>
      rcases List.mem_cons.1 listed with rfl | later
      · exact .tail _ (follow.1 x edge)
      · exact .tail _ (ih follow.2 later)

/-- Nothing on a list depends on what comes behind it. -/
abbrev Ascending (g : DependencyGraph) (names : List String) : Prop :=
  names.Pairwise fun x y => y ≠ x ∧ y ∉ g.dependencies x

theorem DependentsFollow.ascending {g : DependencyGraph} {names : List String}
    (follow : DependentsFollow g names) (once : names.Nodup) : Ascending g names := by
  induction names with
  | nil => exact .nil
  | cons name rest ih =>
      obtain ⟨new, once⟩ := List.nodup_cons.1 once
      refine .cons (fun y later => ⟨?_, fun edge => ?_⟩) (ih follow.2 once)
      · rintro rfl
        exact new later
      · exact new (follow.2.mem later edge)

/-- A wave over names that a formula's name does not depend on leaves it justified. -/
theorem Justified.refresh {x text : String} {names updated : List String}
    {outcome : Except ParameterError (List String)} (justified : t.Justified x text)
    (apart : ∀ y ∈ names, y ≠ x ∧ y ∉ t.graph.dependencies x)
    (refreshed : t.refresh updated names = (next, outcome)) : next.Justified x text := by
  induction names generalizing t updated with
  | nil =>
      obtain rfl := (Prod.mk.inj refreshed).1
      exact justified
  | cons name rest ih =>
      obtain ⟨differs, noEdge⟩ := apart name (List.mem_cons_self ..)
      have later : ∀ y ∈ rest, y ≠ x ∧ y ∉ t.graph.dependencies x := fun y there =>
        apart y (.tail _ there)
      rw [ParameterTable.refresh] at refreshed
      split at refreshed
      · exact ih justified later refreshed
      · split at refreshed
        · obtain rfl := (Prod.mk.inj refreshed).1
          exact justified
        · split at refreshed
          · exact ih justified later refreshed
          · rename_i value _ _
            exact ih (t := t.write name value) (justified.insert rfl rfl differs.symm noEdge) later
              refreshed

/-- A wave that gets through its list brings every formula on it up to date. -/
theorem refresh_brings {names updated all : List String} (wellFormed : t.graph.WellFormed)
    (ascending : Ascending t.graph names)
    (refreshed : t.refresh updated names = (next, .ok all)) :
    ∀ x ∈ names, ∀ text, next.formula? x = some text → next.Justified x text := by
  induction names generalizing t updated with
  | nil => exact fun x there => absurd there List.not_mem_nil
  | cons name rest ih =>
      obtain ⟨before, ascending⟩ := List.pairwise_cons.1 ascending
      have formulas : next.formulas = t.formulas := (refresh_frame refreshed).2.1
      -- the head of the list is evaluated once and not touched again
      suffices head : (∀ text, next.formula? name = some text → next.Justified name text) ∧
          ∀ x ∈ rest, ∀ text, next.formula? x = some text → next.Justified x text by
        rintro x (_ | ⟨_, later⟩)
        · exact head.1
        · exact head.2 x later
      rw [refresh] at refreshed
      split at refreshed
      · rename_i undefined
        refine ⟨fun text defined => ?_, ih wellFormed ascending refreshed⟩
        rw [formula?, formulas, ← formula?, undefined] at defined
        exact absurd defined.symm (Option.some_ne_none text)
      · rename_i text defined
        have same : ∀ other, next.formula? name = some other → other = text := fun other found => by
          rw [formula?, formulas, ← formula?, defined] at found
          exact (Option.some.inj found).symm
        split at refreshed
        · simp at refreshed
        · rename_i value evaluated
          split at refreshed
          · rename_i holds
            refine ⟨fun other found => ?_, ih wellFormed ascending refreshed⟩
            obtain rfl := same other found
            have justified : t.Justified name other := by
              rw [ParameterTable.holds] at holds
              split at holds
              · rename_i held read
                exact ⟨t.values, held, value, read, evaluated, holds, fun _ _ => rfl,
                  fun _ none => none⟩
              · simp at holds
            exact justified.refresh before refreshed
          · refine ⟨fun other found => ?_,
              ih (t := t.write name value) wellFormed ascending refreshed⟩
            obtain rfl := same other found
            have justified : (t.write name value).Justified name other :=
              justified_insert rfl evaluated fun edge =>
                wellFormed.not_follows_self name (.single edge)
            exact justified.refresh before refreshed

theorem propagate_graph (t : ParameterTable) (name : String) :
    (t.propagate name).1.graph = t.graph := (refresh_frame rfl).1

/-- **A wave breaks off at a name whose formula cannot be evaluated.**  The names before it
are up to date, and all others hold what they held. -/
theorem propagate_stops {name : String} {error : ParameterError}
    (wellFormed : t.graph.WellFormed) (failed : t.propagate name = (next, .error error)) :
    ∃ done x behind text e, next.graph.propagationOrder name = done ++ x :: behind ∧
      next.formula? x = some text ∧ Formula.evaluateQuantity text next.values = .error e ∧
      error = .formula e ∧ name ∉ done ∧
      (∀ y ∈ done, ∀ text, next.formula? y = some text → next.Justified y text) ∧
      ∀ y, y ∉ done → next.get? y = t.get? y := by
  have graph : next.graph = t.graph := (refresh_frame failed).1
  obtain ⟨done, x, behind, text, e, all, order, refreshed, defined, fails, told⟩ :=
    refresh_stops failed
  have away : name ∉ t.graph.propagationOrder name := fun there =>
    wellFormed.not_follows_self name (wellFormed.mem_propagationOrder_iff.1 there)
  have ascending := (dependentsFollow_order wellFormed name).ascending
    (wellFormed.propagationOrder_nodup name)
  rw [order] at away ascending
  exact ⟨done, x, behind, text, e, graph ▸ order, defined, fails, told,
    fun there => away (List.mem_append_left _ there),
    refresh_brings wellFormed (List.pairwise_append.1 ascending).1 refreshed,
    (refresh_frame refreshed).2.2⟩

/-! ## What a change can do -/

/-- What is refused before anything is written: a formula that cannot be evaluated, and
one that reads a name from which its own would follow.  The first such name is told. -/
inductive Refuses (t : ParameterTable) : Change → ParameterError → Prop
  | evaluation {name text : String} {e : FormulaError}
      (fails : evaluation t.values text = .error e) :
      t.Refuses (.formula name text) (.formula e)
  | cycle {name text d : String} {result : Formula.Evaluation} {before after : List String}
      (evaluated : evaluation t.values text = .ok result)
      (reads : result.dependencies = before ++ d :: after) (closes : t.graph.Closes name d)
      (first : ∀ e ∈ before, ¬t.graph.Closes name e) :
      t.Refuses (.formula name text) (.cycle ⟨name, d⟩)

/-- A formula whose value is no number. -/
inductive NoNumber (t : ParameterTable) : Change → List String → FormulaError → Prop
  | intro {name text : String} {result : Formula.Evaluation} {e : FormulaError}
      (evaluated : evaluation t.values text = .ok result)
      (fails : Formula.evaluateQuantity text t.values = .error e) :
      t.NoNumber (.formula name text) result.dependencies e

/-- What a change enters for its name: a value, perhaps a formula, and what that reads. -/
inductive Enters (t : ParameterTable) : Change → Quantity → Option String → List String → Prop
  | value (name : String) (value : Quantity) : t.Enters (.value name value) value none []
  | formula {name text : String} {result : Formula.Evaluation} {value : Quantity}
      (evaluated : evaluation t.values text = .ok result)
      (number : Formula.evaluateQuantity text t.values = .ok value) :
      t.Enters (.formula name text) value (some text) result.dependencies

/-- The edges of a name are those to the names that it reads; all others are as they were. -/
structure Redrawn (g : DependencyGraph) (name : String) (reads : List String)
    (h : DependencyGraph) : Prop where
  here : ∀ d, d ∈ h.dependencies name ↔ d ∈ reads
  elsewhere : ∀ other, other ≠ name → h.dependencies other = g.dependencies other

/-- **What a change can do.**  It is refused and leaves the table but for new names without
edges; its formula has no number and draws its edges; or it makes its entry and lets a
wave follow. -/
theorem change_cases (wellFormed : t.graph.WellFormed) (c : Change) :
    (∃ error graph, t.Refuses c error ∧ t.change c = ({ t with graph }, .error error) ∧
        graph.WellFormed ∧ ∀ name, graph.dependencies name = t.graph.dependencies name) ∨
      (∀ error, ¬t.Refuses c error) ∧
      ((∃ reads e graph, t.NoNumber c reads e ∧
        t.change c = ({ t with graph }, .error (.formula e)) ∧ graph.WellFormed ∧
        Redrawn t.graph c.name reads graph) ∨
      ∃ value formula reads, ∃ p : ParameterTable, t.Enters c value formula reads ∧
        t.change c = p.propagate c.name ∧ p.graph.WellFormed ∧
        Redrawn t.graph c.name reads p.graph ∧
        (∀ x, p.get? x = if x = c.name then some value else t.get? x) ∧
        ∀ x, p.formula? x = if x = c.name then formula else t.formula? x) := by
  cases c with
  | value name value =>
      obtain ⟨still, edges⟩ := wellFormed.clearDependencies name
      have redrawn : Redrawn t.graph name [] (t.graph.clearDependencies name) :=
        ⟨fun d => by rw [edges, if_pos rfl], fun other differs => by rw [edges, if_neg differs]⟩
      refine .inr ⟨fun _ refused => (nomatch refused), .inr ⟨value, none, [],
        ⟨t.values.insert name value, t.formulas.erase name, t.graph.clearDependencies name⟩,
        .value name value, rfl, still, redrawn, fun x => ?_, fun x => ?_⟩⟩
      · exact Table.get?_insert ..
      · exact Table.get?_erase ..
  | formula name text =>
      cases evaluated : evaluation t.values text with
      | error e =>
          refine .inl ⟨.formula e, t.graph, .evaluation evaluated, ?_, wellFormed, fun _ => rfl⟩
          simp only [ParameterTable.change, setFormula, evaluated]
      | ok result =>
          rcases wellFormed.setDependencies_cases name result.dependencies with
            ⟨harmless, graph, accepted, _⟩ | ⟨before, d, after, graph, reads, closes, first,
              refused, still, _, keeps⟩
          · obtain ⟨still, here, elsewhere⟩ := wellFormed.setDependencies accepted
            have taken : ∀ error, ¬t.Refuses (.formula name text) error := by
              rintro _ (fails | ⟨other, reads, closes, _⟩)
              · simp [evaluated] at fails
              · obtain rfl := Except.ok.inj (evaluated.symm.trans other)
                exact harmless _ (reads ▸ List.mem_append_right _ (List.mem_cons_self ..)) closes
            cases number : Formula.evaluateQuantity text t.values with
            | error e =>
                refine .inr ⟨taken,
                  .inl ⟨_, e, graph, .intro evaluated number, ?_, still, here, elsewhere⟩⟩
                simp only [ParameterTable.change, setFormula, evaluated, accepted, number]
            | ok value =>
                refine .inr ⟨taken, .inr ⟨value, some text, result.dependencies,
                  ⟨t.values.insert name value, t.formulas.insert name text, graph⟩,
                  .formula evaluated number, setFormula_eq graph evaluated accepted number, still,
                  ⟨here, elsewhere⟩, fun x => ?_, fun x => ?_⟩⟩
                · exact Table.get?_insert ..
                · exact Table.get?_insert ..
          · refine .inl ⟨.cycle ⟨name, d⟩, graph, .cycle evaluated reads closes first, ?_, still,
              keeps.dependencies wellFormed still.names_nodup⟩
            simp only [ParameterTable.change, setFormula, evaluated, refused]

theorem Reachable.wellFormed (reachable : Reachable t) : t.graph.WellFormed := by
  induction reachable with
  | empty => exact .empty
  | @change t _ c ih =>
      rcases change_cases ih c with
        ⟨_, graph, _, outcome, still, _⟩ | ⟨_, ⟨_, _, graph, _, outcome, still, _⟩ |
          ⟨_, _, _, p, _, outcome, still, _⟩⟩
      · rw [outcome]
        exact still
      · rw [outcome]
        exact still
      · rw [outcome, propagate_graph]
        exact still

/-! ## Failed changes -/

/-- A formula without a number leaves its edges behind, and nothing else. -/
structure Rewired (t : ParameterTable) (c : Change) (next : ParameterTable) (e : FormulaError) :
    Prop where
  edges : ∃ reads, t.NoNumber c reads e ∧ Redrawn t.graph c.name reads next.graph
  values : next.values = t.values
  formulas : next.formulas = t.formulas

/-- A wave that broke off leaves the entry of the changed name behind.  The names it had
done are up to date, and all others hold what they held. -/
structure Interrupted (t : ParameterTable) (c : Change) (next : ParameterTable)
    (e : FormulaError) : Prop where
  entry : ∃ value formula reads, t.Enters c value formula reads ∧
    next.get? c.name = some value ∧ Redrawn t.graph c.name reads next.graph ∧
    ∀ x, next.formula? x = if x = c.name then formula else t.formula? x
  wave : ∃ x done behind text, next.graph.propagationOrder c.name = done ++ x :: behind ∧
    next.formula? x = some text ∧ Formula.evaluateQuantity text next.values = .error e ∧
    (∀ y ∈ done, ∀ text, next.formula? y = some text → next.Justified y text) ∧
    ∀ y, y ≠ c.name → y ∉ done → next.get? y = t.get? y

/-- Whether all that a change would enter stands in the table already. -/
def Has (t : ParameterTable) (c : Change) : Prop :=
  ∃ reads, (∀ d, d ∈ t.graph.dependencies c.name ↔ d ∈ reads) ∧
    ((∃ e, t.NoNumber c reads e) ∨
      ∃ value formula, t.Enters c value formula reads ∧ t.get? c.name = some value ∧
        t.formula? c.name = formula)

/-- **What a failed change leaves behind.**  In every table that changes lead to, failed
ones among them, a change that is refused before it writes leaves all values, formulas
and edges as they were: a formula that cannot be evaluated, and one that would close a
cycle.  Every other failure leaves something new unless all that the change enters was
there: a formula whose value is no number has replaced the edges of its name, and a change
whose wave comes to a formula that cannot be evaluated has entered the name's value,
formula and edges and brought the names before that one up to date. -/
theorem left_by_failure {c : Change} {error : ParameterError} (reachable : Reachable t)
    (failed : t.change c = (next, .error error)) :
    (t.Refuses c error → t.Untouched next) ∧
      (¬t.Refuses c error →
        (∃ e, error = .formula e ∧ (t.Rewired c next e ∨ t.Interrupted c next e)) ∧
          (t.Untouched next → t.Has c)) := by
  rcases change_cases reachable.wellFormed c with
    ⟨told, graph, refuses, outcome, _, edges⟩ | ⟨taken, ⟨reads, e, graph, fails, outcome, _, redrawn⟩ |
      ⟨value, formula, reads, p, enters, outcome, still, redrawn, values, formulas⟩⟩
  · obtain ⟨rfl, same⟩ := Prod.mk.inj (outcome.symm.trans failed)
    obtain rfl := Except.error.inj same
    exact ⟨fun _ => ⟨rfl, rfl, fun name d => by rw [edges]⟩, fun other => absurd refuses other⟩
  · obtain ⟨rfl, same⟩ := Prod.mk.inj (outcome.symm.trans failed)
    refine ⟨fun refused => absurd refused (taken _), fun _ => ⟨⟨e, (Except.error.inj same).symm,
      .inl ⟨⟨reads, fails, redrawn⟩, rfl, rfl⟩⟩, fun untouched => ?_⟩⟩
    exact ⟨reads, fun d => (untouched.edges c.name d).symm.trans (redrawn.here d), .inl ⟨e, fails⟩⟩
  · rw [outcome] at failed
    obtain ⟨graph, kept, _⟩ := refresh_frame failed
    obtain ⟨done, x, behind, text, e, order, defined, stops, told, apart, brought, rest⟩ :=
      propagate_stops still failed
    have entered : next.get? c.name = some value := by rw [rest _ apart, values, if_pos rfl]
    have drawn : Redrawn t.graph c.name reads next.graph := graph ▸ redrawn
    have known : ∀ y, next.formula? y = if y = c.name then formula else t.formula? y := fun y => by
      rw [formula?, kept, ← formula?, formulas]
    refine ⟨fun refused => absurd refused (taken _), fun _ => ⟨⟨e, told, .inr ⟨⟨value, formula,
      reads, enters, entered, drawn, known⟩, x, done, behind, text, order, defined, stops, brought,
      fun y differs away => ?_⟩⟩, fun untouched => ?_⟩⟩
    · rw [rest y away, values, if_neg differs]
    · refine ⟨reads, fun d => (untouched.edges c.name d).symm.trans (drawn.here d),
        .inr ⟨value, formula, enters, ?_, ?_⟩⟩
      · rw [get?, ← untouched.values]
        exact entered
      · rw [formula?, ← untouched.formulas]
        exact (known c.name).trans (if_pos rfl)

theorem parse_x : Formula.parse "x" = .ok (.name 0 "x") := by
  rw [Formula.parse, tokenize_letter rfl rfl rfl]
  rfl

/-- A name that is to follow the one that follows it. -/
theorem left_by_failure_follower :
    ∃ next error, follower.change (.formula "a" "x") = (next, .error error) ∧
      follower.Untouched next := by
  have evaluated := evaluation_name follower.values (q := volts 1.0) parse_x rfl
  have closes : follower.graph.Closes "a" "x" := .inr (.single ⟨by decide, by decide⟩)
  obtain ⟨graph, refused⟩ : ∃ graph, follower.graph.setDependencies "a" ["x"] =
      (graph, .error ⟨"a", "x"⟩) := ⟨_, rfl⟩
  have failed : follower.change (.formula "a" "x") =
      ({ follower with graph }, .error (.cycle ⟨"a", "x"⟩)) := by
    simp only [change, setFormula, evaluated, refused]
  have first : follower.Refuses (.formula "a" "x") (.cycle ⟨"a", "x"⟩) :=
    @Refuses.cycle _ _ _ _ _ [] [] evaluated rfl closes fun _ there => absurd there List.not_mem_nil
  exact ⟨_, _, failed, (left_by_failure follower_reached.reachable failed).1 first⟩

def seconds (magnitude : Float) : Quantity := ⟨magnitude, ⟨"s", 1.0, { time := 1 }⟩⟩

/-- A voltage and a name that is one volt above it. -/
def lifted : ParameterTable :=
  ((empty.change (.value "a" (volts 1.0))).1.change (.formula "x" "a + 1 V")).1

/-- A time in the place of the voltage cannot be lifted, but stays; and a list in the place
of a voltage that is followed is no number, but nothing is followed any more. -/
theorem touched_by_failure :
    (Reachable lifted ∧ (lifted.change (.value "a" (seconds 1.0))).2.toBool = false ∧
        (lifted.get? "a").map (·.dimension) = some { voltage := 1 } ∧
        ((lifted.change (.value "a" (seconds 1.0))).1.get? "a").map (·.dimension) =
          some { time := 1 }) ∧
      (Reachable follower ∧ (follower.change (.formula "x" "[]")).2.toBool = false ∧
        follower.graph.dependencies "x" = ["a"] ∧
        (follower.change (.formula "x" "[]")).1.graph.dependencies "x" = []) ∧
      ¬∀ t c, Reachable t → (t.change c).2.toBool = false → t.Untouched (t.change c).1 := by
  have reachable : Reachable lifted := (Reachable.empty.change _).change _
  have stays : ((lifted.change (.value "a" (seconds 1.0))).1.get? "a").map (·.dimension) =
      some { time := 1 } := by decide +kernel
  have before : (lifted.get? "a").map (·.dimension) = some { voltage := 1 } := by decide +kernel
  have fails : (lifted.change (.value "a" (seconds 1.0))).2.toBool = false := by decide +kernel
  refine ⟨⟨reachable, fails, before, stays⟩,
    ⟨follower_reached.reachable, by decide +kernel, by decide, by decide +kernel⟩, fun claim => ?_⟩
  rw [get?, (claim lifted _ reachable fails).values, ← get?, before] at stays
  exact absurd stays (by decide)

end PulseSequencer.ParameterTable
