import PulseSequencer.Proofs.Program.Ancestry
import PulseSequencer.Proofs.Program.ParameterConsistency

/-
# PulseSequencer.Proofs.Program.Inheritance -- the nearest entry wins

A resolved context is laid down context by context, oldest first, and entry by entry:
each step overrides, skips, or switches on again what older contexts said.  What comes
out depends on the nearest entries alone.  `Resolves` says this of a result and a chain
of contexts, and `Orphan` which entries stand in the way: they take the value of the
parent, and no older context has one.

Every step has an `Outcome`, an orphan and the error that it leads to, or no orphan and
a result that is right (`addEntry_outcome`, `addContext_outcome`).  Main statement:
`resolve_nearest`.

The source file goes the other way.  A file that is there already stays, so that the oldest
ancestor with a file gives it and not the nearest one: `sourceFile_foldlM_addContext` for
contexts one after the other, and `sourceFile_of_resolve` with the condition under which
the oldest file is also the nearest.
-/

namespace PulseSequencer

set_option autoImplicit false

/-! ## What contexts say -/

/-- The value that an entry gives to its variable. -/
inductive ContextEntry.Gives (globals : Table String Quantity) (e : ContextEntry) :
    Quantity → Prop
  | value (plain : e.formula = none) : e.Gives globals e.value
  | formula {text : String} {q : Quantity} (written : e.formula = some text)
      (evaluated : Formula.evaluateQuantity text globals = .ok q) : e.Gives globals q

/-- The entry of a variable, unless it takes the value of the parent. -/
def Context.concrete? (c : Context) (v : String) : Option ContextEntry :=
  (c.vars.get? v).filter fun e => !e.fromParent

namespace ContextStore

/-- The concrete entry of the nearest context that has one. -/
def nearest? (chain : List Context) (v : String) : Option ContextEntry :=
  chain.findSome? fun c => c.concrete? v

/-- A variable takes the value of the parent in a context, and no older one has an entry
for it. -/
def Orphan (chain : List Context) (context v : String) : Prop :=
  ∃ younger c older e, chain = younger ++ c :: older ∧ c.name = context ∧
    c.vars.get? v = some e ∧ e.fromParent = true ∧ nearest? older v = none

/-- No formula of a concrete entry fails. -/
def Evaluates (globals : Table String Quantity) (chain : List Context) : Prop :=
  ∀ c ∈ chain, ∀ v e, c.concrete? v = some e → ∃ q, e.Gives globals q

/-- A result has the values of the entries that variables have, and is silent about
variables that have none. -/
structure Lays (globals : Table String Quantity) (said : String → Option ContextEntry)
    (r : ResolvedContext) : Prop where
  value : ∀ v e, said v = some e → ∃ q, e.Gives globals q ∧ r.values.get? v = some q
  absent : ∀ v, said v = none → r.values.get? v = none
  disabled : ∀ v, v ∈ r.disabled ↔ ∃ e, said v = some e ∧ e.enabled = false

/-- Entries and masks are those of the nearest contexts that have some. -/
structure Resolves (globals : Table String Quantity) (chain : List Context)
    (r : ResolvedContext) : Prop extends Lays globals (nearest? chain) r where
  shutters : ∀ v, r.shutters.get? v = chain.findSome? fun c => c.shutters.get? v
  triggers : ∀ v, r.triggers.get? v = chain.findSome? fun c => c.triggers.get? v
  counters : ∀ v, r.counters.get? v = chain.findSome? fun c => c.counters.get? v

/-! ## Outcomes -/

/-- Either a value of a parent is missing, which is the error, or none is and the result
is right. -/
def Outcome (missing : String → String → Prop) (right : ResolvedContext → Prop)
    (result : Except ContextError ResolvedContext) : Prop :=
  (∃ context v, missing context v ∧ result = .error (.missingParentValue context v)) ∨
    (∀ context v, ¬missing context v) ∧ ∃ r, result = .ok r ∧ right r

section Outcome

variable {missing others : String → String → Prop} {right final : ResolvedContext → Prop}
  {result : Except ContextError ResolvedContext}

/-- One step after another: the first value that is missing is the error. -/
theorem Outcome.bind {next : ResolvedContext → Except ContextError ResolvedContext}
    (first : Outcome missing right result) (onward : ∀ r, right r → Outcome others final (next r)) :
    Outcome (fun context v => missing context v ∨ others context v) final (result >>= next) := by
  rcases first with ⟨context, v, lacks, rfl⟩ | ⟨complete, r, rfl, good⟩
  · exact .inl ⟨context, v, .inl lacks, rfl⟩
  · rcases onward r good with ⟨context, v, lacks, failed⟩ | ⟨complete', r', done, good'⟩
    · exact .inl ⟨context, v, .inr lacks, failed⟩
    · exact .inr ⟨fun context v => not_or.2 ⟨complete context v, complete' context v⟩,
        r', done, good'⟩

theorem Outcome.mono (outcome : Outcome missing right result)
    (same : ∀ context v, missing context v ↔ others context v)
    (better : ∀ r, right r → final r) : Outcome others final result := by
  rcases outcome with ⟨context, v, lacks, failed⟩ | ⟨complete, r, done, good⟩
  · exact .inl ⟨context, v, (same context v).1 lacks, failed⟩
  · exact .inr ⟨fun context v lacks => complete context v ((same context v).2 lacks),
      r, done, better r good⟩

end Outcome

/-! ## One entry -/

section Steps

variable {globals : Table String Quantity} {said : String → Option ContextEntry}
  {r : ResolvedContext} {context name : String} {e : ContextEntry} {q : Quantity}

theorem entryValue_of_gives (gives : e.Gives globals q) :
    entryValue context name globals e = .ok q := by
  rw [entryValue]
  cases gives with
  | value plain => rw [plain]
  | formula written evaluated =>
      rw [written]
      simp only [evaluated]
      rfl

/-- Entries over those of older contexts. -/
def laid (entries : List (String × ContextEntry)) (said : String → Option ContextEntry)
    (v : String) : Option ContextEntry :=
  ((entries.lookup v).filter fun e => !e.fromParent).or (said v)

theorem laid_of_ne (said : String → Option ContextEntry) {v : String} (other : v ≠ name) :
    laid [(name, e)] said v = said v := by
  rw [laid, List.lookup_cons, beq_eq_false_iff_ne.2 other]
  rfl

theorem laid_self (said : String → Option ContextEntry) :
    laid [(name, e)] said name = if e.fromParent then said name else some e := by
  rw [laid, List.lookup_cons_self, Option.filter_some]
  cases e.fromParent <;> rfl

theorem laid_cons (said : String → Option ContextEntry) {rest : List (String × ContextEntry)}
    (once : name ∉ rest.map Prod.fst) :
    laid rest (laid [(name, e)] said) = laid ((name, e) :: rest) said := by
  funext v
  by_cases here : v = name
  · subst here
    have absent : rest.lookup v = none := Table.lookup_of_not_mem once
    rw [laid, absent, laid, laid, List.lookup_cons_self, List.lookup_cons_self]
    rfl
  · rw [laid, laid_of_ne said here, laid, List.lookup_cons, beq_eq_false_iff_ne.2 here]

/-- Entries do not touch masks. -/
structure SameMasks (r next : ResolvedContext) : Prop where
  shutters : next.shutters = r.shutters
  triggers : next.triggers = r.triggers
  counters : next.counters = r.counters

theorem SameMasks.trans {next last : ResolvedContext} (first : SameMasks r next)
    (second : SameMasks next last) : SameMasks r last :=
  ⟨second.shutters.trans first.shutters, second.triggers.trans first.triggers,
    second.counters.trans first.counters⟩

/-- A result with the value and the switch of one variable. -/
def withEntry (r : ResolvedContext) (name : String) (q : Quantity) (enabled : Bool) :
    ResolvedContext :=
  { r with
    values := r.values.insert name q
    disabled := if enabled then r.disabled.filter (· ≠ name)
      else r.disabled.filter (· ≠ name) ++ [name] }

theorem get?_withEntry (enabled : Bool) (v : String) :
    (withEntry r name q enabled).values.get? v = if v = name then some q else r.values.get? v :=
  Table.get?_insert ..

theorem mem_disabled_withEntry {enabled : Bool} {v : String} :
    v ∈ (withEntry r name q enabled).disabled ↔
      if v = name then enabled = false else v ∈ r.disabled := by
  by_cases here : v = name <;> cases enabled <;> simp [withEntry, here]

theorem addEntry_of_gives (concrete : e.fromParent = false) (gives : e.Gives globals q) :
    addEntry context globals r (name, e) = .ok (withEntry r name q e.enabled) := by
  rw [addEntry, if_neg (by simp [concrete]), entryValue_of_gives gives]
  rfl

/-- A concrete entry replaces what older contexts said. -/
theorem lays_withEntry (lays : Lays globals said r) (concrete : e.fromParent = false)
    (gives : e.Gives globals q) :
    Lays globals (laid [(name, e)] said) (withEntry r name q e.enabled) := by
  have here : laid [(name, e)] said name = some e := by
    rw [laid_self, if_neg (by simp [concrete])]
  refine ⟨fun v d found => ?_, fun v none' => ?_, fun v => ?_⟩
  · rw [get?_withEntry]
    by_cases same : v = name
    · obtain rfl := Option.some.inj (here.symm.trans (same ▸ found))
      exact ⟨q, gives, if_pos same⟩
    · rw [if_neg same]
      exact lays.value v d (laid_of_ne said same ▸ found)
  · have other : v ≠ name := by
      rintro rfl
      exact absurd (here.symm.trans none') (by simp)
    rw [get?_withEntry, if_neg other]
    exact lays.absent v (laid_of_ne said other ▸ none')
  · rw [mem_disabled_withEntry]
    by_cases same : v = name
    · rw [if_pos same, same, here]
      simp only [Option.some.injEq, exists_eq_left']
    · rw [if_neg same, laid_of_ne said same]
      exact lays.disabled v

/-- **One entry.** -/
theorem addEntry_outcome (context name : String) (lays : Lays globals said r)
    (evaluates : e.fromParent = false → ∃ q, e.Gives globals q) :
    Outcome (fun c v => c = context ∧ v = name ∧ e.fromParent = true ∧ said name = none)
      (fun next => SameMasks r next ∧ Lays globals (laid [(name, e)] said) next)
      (addEntry context globals r (name, e)) := by
  cases inherits : e.fromParent with
  | false =>
      obtain ⟨q, gives⟩ := evaluates inherits
      exact .inr ⟨fun _ _ lacks => Bool.false_ne_true lacks.2.2.1, _, addEntry_of_gives inherits gives,
        ⟨rfl, rfl, rfl⟩, lays_withEntry lays inherits gives⟩
  | true =>
      have same : laid [(name, e)] said = said := by
        funext v
        by_cases here : v = name
        · rw [here, laid_self, if_pos inherits]
        · exact laid_of_ne said here
      have step : addEntry context globals r (name, e) =
          if r.values.contains name then .ok r else .error (.missingParentValue context name) := by
        rw [addEntry, if_pos inherits]
        rfl
      rw [step, same, Table.contains]
      cases found : said name with
      | none =>
          rw [lays.absent name found]
          exact .inl ⟨context, name, ⟨rfl, rfl, rfl, rfl⟩, rfl⟩
      | some d =>
          obtain ⟨q, _, held⟩ := lays.value name d found
          rw [held]
          exact .inr ⟨fun _ _ lacks => Option.some_ne_none d lacks.2.2.2, r, rfl, ⟨rfl, rfl, rfl⟩, lays⟩

/-! ## One context -/

theorem foldlM_addEntry_outcome (context : String) {entries : List (String × ContextEntry)}
    (nodup : (entries.map Prod.fst).Nodup) (lays : Lays globals said r)
    (evaluates : ∀ entry ∈ entries, entry.2.fromParent = false → ∃ q, entry.2.Gives globals q) :
    Outcome (fun c v => c = context ∧ ∃ e, (v, e) ∈ entries ∧ e.fromParent = true ∧ said v = none)
      (fun next => SameMasks r next ∧ Lays globals (laid entries said) next)
      (entries.foldlM (addEntry context globals) r) := by
  induction entries generalizing r said with
  | nil =>
      refine .inr ⟨fun _ _ lacks => ?_, r, rfl, ⟨rfl, rfl, rfl⟩, lays⟩
      obtain ⟨_, _, there, _⟩ := lacks
      exact List.not_mem_nil there
  | cons entry rest ih =>
      obtain ⟨name, e⟩ := entry
      rw [List.map_cons, List.nodup_cons] at nodup
      have first := addEntry_outcome context name lays
        (evaluates (name, e) (List.mem_cons_self ..))
      -- an entry does not touch what older contexts say of the other names
      have apart : ∀ v d, (v, d) ∈ rest → laid [(name, e)] said v = said v :=
        fun v d there => laid_of_ne said fun same =>
          nodup.1 (List.mem_map.2 ⟨(v, d), there, same⟩)
      have onward : ∀ next, SameMasks r next ∧ Lays globals (laid [(name, e)] said) next →
          Outcome (fun c v => c = context ∧ ∃ d, (v, d) ∈ rest ∧ d.fromParent = true ∧
              laid [(name, e)] said v = none)
            (fun last => SameMasks r last ∧ Lays globals (laid ((name, e) :: rest) said) last)
            (rest.foldlM (addEntry context globals) next) := by
        rintro next ⟨masks, lays⟩
        have later := ih nodup.2 lays fun entry there =>
          evaluates entry (List.mem_cons_of_mem _ there)
        refine later.mono (fun _ _ => Iff.rfl) fun last good => ⟨masks.trans good.1, ?_⟩
        rw [← laid_cons said nodup.1]
        exact good.2
      rw [List.foldlM_cons]
      refine (first.bind onward).mono (fun c v => ⟨?_, ?_⟩) fun _ good => good
      · rintro (⟨rfl, rfl, inherits, none'⟩ | ⟨rfl, d, there, inherits, none'⟩)
        · exact ⟨rfl, e, List.mem_cons_self .., inherits, none'⟩
        · exact ⟨rfl, d, List.mem_cons_of_mem _ there, inherits, apart v d there ▸ none'⟩
      · rintro ⟨rfl, d, there, inherits, none'⟩
        rcases List.mem_cons.1 there with same | there
        · obtain ⟨rfl, rfl⟩ := Prod.mk.inj same
          exact .inl ⟨rfl, rfl, inherits, none'⟩
        · exact .inr ⟨rfl, d, there, inherits, (apart v d there).trans none'⟩

theorem nearest?_cons (c : Context) (older : List Context) :
    nearest? (c :: older) = laid c.vars.entries (nearest? older) := by
  funext v
  rw [nearest?, findSome?_cons_eq_or]
  rfl

/-- **One context.** -/
theorem addContext_outcome {older : List Context} {c : Context}
    (resolves : Resolves globals older r)
    (evaluates : ∀ v e, c.concrete? v = some e → ∃ q, e.Gives globals q) :
    Outcome (fun context v => c.name = context ∧ ∃ e, c.vars.get? v = some e ∧
        e.fromParent = true ∧ nearest? older v = none)
      (Resolves globals (c :: older)) (addContext globals r c) := by
  have entries := foldlM_addEntry_outcome c.name c.vars.nodup resolves.toLays
    fun entry there concrete => evaluates entry.1 entry.2 (by
      rw [Context.concrete?, Table.get?_eq_some_iff.2 there, Option.filter_some, concrete]
      rfl)
  rw [← nearest?_cons] at entries
  have masks : ∀ next, SameMasks r next ∧ Lays globals (nearest? (c :: older)) next →
      Outcome (fun _ _ => False) (Resolves globals (c :: older)) (.ok
        { next with
          shutters := next.shutters.insertAll c.shutters.entries
          triggers := next.triggers.insertAll c.triggers.entries
          counters := next.counters.insertAll c.counters.entries
          sourceFile := next.sourceFile.or c.sourceFile }) := by
    rintro next ⟨same, lays⟩
    refine .inr ⟨fun _ _ => id, _, rfl, ⟨lays.value, lays.absent, lays.disabled⟩, fun v => ?_,
      fun v => ?_, fun v => ?_⟩
    · rw [Table.get?_insertAll_entries, same.shutters, resolves.shutters, findSome?_cons_eq_or]
    · rw [Table.get?_insertAll_entries, same.triggers, resolves.triggers, findSome?_cons_eq_or]
    · rw [Table.get?_insertAll_entries, same.counters, resolves.counters, findSome?_cons_eq_or]
  refine (entries.bind masks).mono (fun context v => ?_) fun _ good => good
  rw [or_false, eq_comm]
  simp only [Table.get?_eq_some_iff]

/-! ## The whole chain -/

theorem not_orphan_nil (context v : String) : ¬Orphan [] context v := by
  rintro ⟨younger, _, _, _, shape, _⟩
  exact List.append_ne_nil_of_right_ne_nil younger (List.cons_ne_nil _ _) shape.symm

theorem orphan_cons_iff {c : Context} {older : List Context} {context v : String} :
    Orphan (c :: older) context v ↔ Orphan older context v ∨
      c.name = context ∧ ∃ e, c.vars.get? v = some e ∧ e.fromParent = true ∧
        nearest? older v = none := by
  constructor
  · rintro ⟨younger, d, rest, e, shape, named, found, inherits, none'⟩
    cases younger with
    | nil =>
        obtain ⟨rfl, rfl⟩ := List.cons.inj shape
        exact .inr ⟨named, e, found, inherits, none'⟩
    | cons _ younger =>
        obtain ⟨rfl, rfl⟩ := List.cons.inj shape
        exact .inl ⟨younger, d, rest, e, rfl, named, found, inherits, none'⟩
  · rintro (⟨younger, d, rest, e, rfl, orphan⟩ | ⟨named, e, orphan⟩)
    · exact ⟨c :: younger, d, rest, e, rfl, orphan⟩
    · exact ⟨[], c, older, e, rfl, named, orphan⟩

/-- **Contexts from the oldest down.** -/
theorem foldlM_addContext_outcome {chain : List Context} (evaluates : Evaluates globals chain)
    (start : Resolves globals [] r) :
    Outcome (Orphan chain) (Resolves globals chain)
      (chain.reverse.foldlM (addContext globals) r) := by
  induction chain with
  | nil => exact .inr ⟨not_orphan_nil, r, rfl, start⟩
  | cons c older ih =>
      have before := ih fun d there => evaluates d (List.mem_cons_of_mem _ there)
      rw [List.reverse_cons, List.foldlM_append]
      refine (before.bind fun next resolves => ?_).mono (fun _ _ => orphan_cons_iff.symm)
        fun _ good => good
      simp only [List.foldlM_cons, List.foldlM_nil, bind_pure]
      exact addContext_outcome resolves (evaluates c (List.mem_cons_self ..))

end Steps

/-- **The nearest entry wins.**  If no formula fails, a context resolves to the entries
and masks of the nearest contexts of its ancestry, unless a variable takes the value of
a parent that has none. -/
theorem resolve_nearest {s : ContextStore} (reached : Reached s) {name : String} {c : Context}
    (stored : s.get? name = some c) {globals : Table String Quantity}
    (evaluates : ∀ chain, Ancestry s name chain → Evaluates globals chain) :
    ∃ chain, Ancestry s name chain ∧
      ((∃ context v, s.resolve name globals = .error (.missingParentValue context v)) ↔
        ∃ context v, Orphan chain context v) ∧
      ((∀ context v, ¬Orphan chain context v) →
        ∃ r, s.resolve name globals = .ok r ∧ Resolves globals chain r) := by
  obtain ⟨chain, ancestry⟩ := reached.rooted.ancestry name c stored
  have start : Resolves globals [] { sourceFile := c.sourceFile, ramFile := c.ramFile } :=
    { value := fun _ _ found => (nomatch found)
      absent := fun _ _ => rfl
      disabled := fun _ => ⟨fun there => (nomatch there), fun ⟨_, found, _⟩ => (nomatch found)⟩
      shutters := fun _ => rfl
      triggers := fun _ => rfl
      counters := fun _ => rfl }
  have resolved : s.resolve name globals = chain.reverse.foldlM (addContext globals)
      { sourceFile := c.sourceFile, ramFile := c.ramFile } := by
    rw [resolve, stored, ← reached.rooted.chain_eq ancestry]
  refine ⟨chain, ancestry, ?_⟩
  rw [resolved]
  rcases foldlM_addContext_outcome (evaluates chain ancestry) start with
    ⟨context, v, orphan, failed⟩ | ⟨none', r, done, resolves⟩
  · exact ⟨⟨fun _ => ⟨context, v, orphan⟩, fun _ => ⟨context, v, failed⟩⟩,
      fun none' => absurd orphan (none' context v)⟩
  · refine ⟨⟨?_, ?_⟩, fun _ => ⟨r, done, resolves⟩⟩
    · rintro ⟨_, _, failed⟩
      rw [done] at failed
      cases failed
    · rintro ⟨context, v, orphan⟩
      exact absurd orphan (none' context v)

/-! ### A family -/

/-- A formula, and a value that is switched off. -/
def grandparent : Context where
  name := "grandparent"
  vars := Table.ofList [("a", { value := .plain 0, formula := some "a" }),
    ("b", { value := .plain 2, enabled := false })]
  shutters := Table.ofList [("open", 1)]

/-- Takes the formula over, and switches a value of its own on and another off. -/
def parent : Context where
  name := "parent"
  vars := Table.ofList [("a", { value := .plain 9, fromParent := true }),
    ("b", { value := .plain 3 }), ("c", { value := .plain 4, enabled := false })]

def child : Context where
  name := "child"
  vars := Table.ofList [("b", { value := .plain 9, fromParent := true })]
  shutters := Table.ofList [("open", 2)]

def family : ContextStore where
  contexts := Table.ofList [("grandparent", grandparent),
    ("parent", { parent with parent := some "grandparent" }),
    ("child", { child with parent := some "parent" })]

theorem family_reached : Reached family := by
  have strangers : Reached (((empty.insert grandparent).insert parent).insert child) :=
    .insert (.insert (.insert .empty rfl) rfl) rfl
  have first : (((empty.insert grandparent).insert parent).insert child).setParent "parent"
      (some "grandparent") = .ok (((empty.insert grandparent).insert
        { parent with parent := some "grandparent" }).insert child) := rfl
  have second : (((empty.insert grandparent).insert
      { parent with parent := some "grandparent" }).insert child).setParent "child"
        (some "parent") = .ok family := rfl
  exact .setParent (.setParent strangers first) second

/-- The child and its ancestors. -/
def lineage : List Context :=
  [{ child with parent := some "parent" }, { parent with parent := some "grandparent" },
    grandparent]

theorem ancestry_family : Ancestry family "child" lineage :=
  .child rfl rfl (.child rfl rfl (.root rfl rfl))

def voltage : Table String Quantity := Table.ofList [("a", ParameterTable.volts 1.0)]

theorem evaluates_lineage : Evaluates voltage lineage := by
  have formulas : ∀ c ∈ lineage, ∀ entry ∈ c.vars.entries,
      entry.2.formula = none ∨ entry.2.formula = some "a" := by decide
  have evaluated : Formula.evaluateQuantity "a" voltage = .ok (ParameterTable.volts 1.0) :=
    ParameterTable.evaluateQuantity_eq
      (ParameterTable.evaluation_name voltage (q := ParameterTable.volts 1.0)
        ParameterTable.parse_a rfl)
  intro c there v e concrete
  have found := Table.get?_eq_some_iff.1 (Option.filter_eq_some_iff.1 concrete).1
  rcases formulas c there (v, e) found with plain | written
  · exact ⟨_, .value plain⟩
  · exact ⟨_, .formula written evaluated⟩

theorem not_orphan_lineage (context v : String) : ¬Orphan lineage context v := by
  have ofGrandparent : ∀ entry ∈ grandparent.vars.entries, entry.2.fromParent = false := by
    decide
  have ofParent : ∀ entry ∈ parent.vars.entries, entry.2.fromParent = true →
      (nearest? [grandparent] entry.1).isSome = true := by decide
  have ofChild : ∀ entry ∈ child.vars.entries, entry.2.fromParent = true →
      (nearest? (lineage.drop 1) entry.1).isSome = true := by decide
  intro orphan
  rw [lineage, orphan_cons_iff, orphan_cons_iff, orphan_cons_iff] at orphan
  rcases orphan with ((orphan | ⟨_, e, found, inherits, _⟩) |
    ⟨_, e, found, inherits, none'⟩) | ⟨_, e, found, inherits, none'⟩
  · exact not_orphan_nil context v orphan
  · have concrete := ofGrandparent (v, e) (Table.get?_eq_some_iff.1 found)
    exact absurd (concrete.symm.trans inherits) (by decide)
  · have known := ofParent (v, e) (Table.get?_eq_some_iff.1 found) inherits
    rw [none'] at known
    cases known
  · have known := ofChild (v, e) (Table.get?_eq_some_iff.1 found) inherits
    exact absurd (none' ▸ known : (none : Option ContextEntry).isSome = true) (by decide)

theorem resolve_nearest_family :
    Reached family ∧ (∀ chain, Ancestry family "child" chain → Evaluates voltage chain) ∧
      ∃ r, family.resolve "child" voltage = .ok r ∧ Resolves voltage lineage r ∧
        r.values.get? "b" = some (.plain 3) ∧ "b" ∉ r.disabled ∧ "c" ∈ r.disabled ∧
        r.shutters.get? "open" = some 2 := by
  have evaluates : ∀ chain, Ancestry family "child" chain → Evaluates voltage chain :=
    fun chain other => ancestry_family.unique other ▸ evaluates_lineage
  have ofParent : nearest? lineage "b" = some { value := .plain 3 } := rfl
  obtain ⟨chain, other, _, resolved⟩ := resolve_nearest family_reached rfl evaluates
  obtain rfl := ancestry_family.unique other
  obtain ⟨r, done, resolves⟩ := resolved not_orphan_lineage
  refine ⟨family_reached, evaluates, r, done, resolves, ?_, fun there => ?_, ?_,
    resolves.shutters "open"⟩
  · obtain ⟨q, gives, held⟩ := resolves.value "b" _ ofParent
    cases gives with
    | value _ => exact held
    | formula written _ => cases written
  · obtain ⟨e, found, off⟩ := (resolves.disabled "b").1 there
    obtain rfl := Option.some.inj (ofParent.symm.trans found)
    cases off
  · exact (resolves.disabled "c").2 ⟨_, rfl, rfl⟩

/-! ## The source file -/

/-- The source file of the nearest context that has one. -/
def nearestSource? (chain : List Context) : Option String :=
  chain.findSome? Context.sourceFile

/-- The source file of the oldest context that has one. -/
def oldestSource? (chain : List Context) : Option String := nearestSource? chain.reverse

section SourceFile

variable {globals : Table String Quantity} {r next : ResolvedContext} {context : String}

/-- Entries do not touch the source file. -/
theorem sourceFile_addEntry {entry : String × ContextEntry}
    (laid : addEntry context globals r entry = .ok next) : next.sourceFile = r.sourceFile := by
  obtain ⟨name, e⟩ := entry
  rw [addEntry] at laid
  split at laid
  · split at laid
    · obtain rfl := Except.ok.inj laid
      rfl
    · cases laid
  · obtain ⟨value, _, laid⟩ := bind_eq_ok.1 laid
    obtain rfl := Except.ok.inj laid
    rfl

theorem sourceFile_foldlM_addEntry {entries : List (String × ContextEntry)}
    (laid : entries.foldlM (addEntry context globals) r = .ok next) :
    next.sourceFile = r.sourceFile := by
  induction entries generalizing r with
  | nil =>
      obtain rfl := Except.ok.inj laid
      rfl
  | cons entry rest ih =>
      rw [List.foldlM_cons] at laid
      obtain ⟨middle, first, laid⟩ := bind_eq_ok.1 laid
      rw [ih laid, sourceFile_addEntry first]

/-- **One context**: its file comes in where there is none. -/
theorem sourceFile_addContext {c : Context} (laid : addContext globals r c = .ok next) :
    next.sourceFile = r.sourceFile.or c.sourceFile := by
  rw [addContext] at laid
  obtain ⟨middle, entries, laid⟩ := bind_eq_ok.1 laid
  obtain rfl := Except.ok.inj laid
  show middle.sourceFile.or c.sourceFile = _
  rw [sourceFile_foldlM_addEntry entries]

/-- **Contexts one after the other**: the first file that comes stays. -/
theorem sourceFile_foldlM_addContext {contexts : List Context}
    (laid : contexts.foldlM (addContext globals) r = .ok next) :
    next.sourceFile = r.sourceFile.or (nearestSource? contexts) := by
  induction contexts generalizing r with
  | nil =>
      obtain rfl := Except.ok.inj laid
      exact Option.or_none.symm
  | cons c rest ih =>
      rw [List.foldlM_cons] at laid
      obtain ⟨middle, first, laid⟩ := bind_eq_ok.1 laid
      rw [ih laid, sourceFile_addContext first, nearestSource?, nearestSource?, Option.or_assoc,
        findSome?_cons_eq_or]

end SourceFile

/-- The ancestry of a stored context begins with it. -/
theorem Ancestry.exists_cons {s : ContextStore} {name : String} {c : Context}
    {chain : List Context} (ancestry : Ancestry s name chain) (stored : s.get? name = some c) :
    ∃ older, chain = c :: older := by
  cases ancestry with
  | root stored' _ =>
      obtain rfl := Option.some.inj (stored.symm.trans stored')
      exact ⟨[], rfl⟩
  | child stored' _ _ =>
      obtain rfl := Option.some.inj (stored.symm.trans stored')
      exact ⟨_, rfl⟩

theorem nearestSource?_cons (c : Context) (older : List Context) :
    nearestSource? (c :: older) = c.sourceFile.or (nearestSource? older) :=
  findSome?_cons_eq_or ..

theorem oldestSource?_cons (c : Context) (older : List Context) :
    oldestSource? (c :: older) = (oldestSource? older).or c.sourceFile := by
  rw [oldestSource?, List.reverse_cons, nearestSource?, List.findSome?_append,
    List.findSome?_singleton]
  rfl

/-- **The source file of a resolved context** is its own if it has one, otherwise that of
its oldest ancestor with a file, and none if no ancestor has one.  It is that of the
nearest context with a file exactly if the context has its own, or the nearest and the
oldest of its ancestors with a file have the same. -/
theorem sourceFile_of_resolve {s : ContextStore} (reached : Reached s) {name : String}
    {globals : Table String Quantity} {r : ResolvedContext}
    (resolved : s.resolve name globals = .ok r) :
    ∃ c older, Ancestry s name (c :: older) ∧
      r.sourceFile = c.sourceFile.or (oldestSource? older) ∧
      (r.sourceFile = nearestSource? (c :: older) ↔
        c.sourceFile.isSome = true ∨ nearestSource? older = oldestSource? older) := by
  cases stored : s.get? name with
  | none =>
      rw [resolve, stored] at resolved
      cases resolved
  | some c =>
      obtain ⟨chain, ancestry⟩ := reached.rooted.ancestry name c stored
      obtain ⟨older, rfl⟩ := ancestry.exists_cons stored
      have laid : (c :: older).reverse.foldlM (addContext globals)
          { sourceFile := c.sourceFile, ramFile := c.ramFile } = .ok r := by
        rw [← reached.rooted.chain_eq ancestry, ← resolved, resolve, stored]
      have file : r.sourceFile = c.sourceFile.or (oldestSource? older) := by
        -- the own file is there from the start, and once more at the end of the chain
        rw [sourceFile_foldlM_addContext laid, ← oldestSource?, oldestSource?_cons]
        cases c.sourceFile with
        | none => exact Option.or_none
        | some own => rfl
      refine ⟨c, older, ancestry, file, ?_⟩
      rw [file, nearestSource?_cons]
      cases c.sourceFile with
      | none => simp only [Option.none_or, Option.isSome_none, Bool.false_eq_true, false_or, eq_comm]
      | some own => simp only [Option.some_or, Option.isSome_some, true_or]

/-! ### A file that is passed over -/

/-- A context without a file under two that have one. -/
def archive : ContextStore where
  contexts := Table.ofList [("base", { name := "base", sourceFile := some "base.pp" }),
    ("lab", { name := "lab", sourceFile := some "lab.pp", parent := some "base" }),
    ("run", { name := "run", parent := some "lab" })]

theorem archive_reached : Reached archive := by
  have strangers : Reached (((empty.insert { name := "base", sourceFile := some "base.pp" }).insert
      { name := "lab", sourceFile := some "lab.pp" }).insert { name := "run" }) :=
    .insert (.insert (.insert .empty rfl) rfl) rfl
  have first : (((empty.insert { name := "base", sourceFile := some "base.pp" }).insert
      { name := "lab", sourceFile := some "lab.pp" }).insert { name := "run" }).setParent "lab"
        (some "base") = .ok (((empty.insert
          { name := "base", sourceFile := some "base.pp" }).insert
            { name := "lab", sourceFile := some "lab.pp", parent := some "base" }).insert
              { name := "run" }) := rfl
  have second : (((empty.insert { name := "base", sourceFile := some "base.pp" }).insert
      { name := "lab", sourceFile := some "lab.pp", parent := some "base" }).insert
        { name := "run" }).setParent "run" (some "lab") = .ok archive := rfl
  exact .setParent (.setParent strangers first) second

/-- A context of this store with its ancestry. -/
def archived : List Context :=
  [{ name := "run", parent := some "lab" },
    { name := "lab", sourceFile := some "lab.pp", parent := some "base" },
    { name := "base", sourceFile := some "base.pp" }]

theorem ancestry_archive : Ancestry archive "run" archived :=
  .child rfl rfl (.child rfl rfl (.root rfl rfl))

theorem sourceFile_of_resolve_archive :
    Reached archive ∧ ∃ r, archive.resolve "run" Table.empty = .ok r ∧
      r.sourceFile = some "base.pp" := by
  obtain ⟨r, resolved⟩ : ∃ r, archive.resolve "run" Table.empty = .ok r := ⟨_, rfl⟩
  obtain ⟨c, older, ancestry, file, _⟩ := sourceFile_of_resolve archive_reached resolved
  obtain ⟨rfl, rfl⟩ := List.cons.inj (ancestry_archive.unique ancestry)
  exact ⟨archive_reached, r, resolved, file⟩

/-- **The nearest file is not taken.**  The oldest ancestor gives its own, although the
parent has one too. -/
theorem nearest_source_passed_over :
    Reached archive ∧ Ancestry archive "run" archived ∧
      nearestSource? archived = some "lab.pp" ∧
      (archive.resolve "run" Table.empty).toOption.map ResolvedContext.sourceFile =
        some (some "base.pp") :=
  ⟨archive_reached, ancestry_archive, rfl, rfl⟩

end ContextStore

end PulseSequencer
