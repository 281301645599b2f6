import PulseSequencer.Device.Controller
import PulseSequencer.Proofs.Program.Coherence

/-
# PulseSequencer.Proofs.Device.Merge -- the words that a program runs with

`Merge` keeps what decides about the words of a program: its declarations, the context
and the overrides that were given.  It has no word and no current value, and yet the
images of a controller hold the words of its merge after every history
(`images_eq_merge`), so nothing of earlier images or contexts is left in them.
`Tracks` is what every operation keeps.
-/

namespace PulseSequencer.Controller

open Program (changed withValue withMask)

set_option autoImplicit false

/-! ## Histories -/

inductive Operation where
  | load (name text : String)
  | assemble
  | setLimits (limits : MemoryLimits)
  | setContext (context : Option ResolvedContext)
  | update (values : Table String Quantity)
  | images (overrides : Table String Quantity)

/-- A controller after an operation.  One that fails leaves it as it was. -/
def perform (c : Controller) : Operation → Controller
  | .load name text => (c.load name text).toOption.elim c Prod.fst
  | .assemble => c.assemble.toOption.elim c Prod.fst
  | .setLimits limits => c.setLimits limits
  | .setContext context => c.setContext context
  | .update values => (c.updateVariables values).1
  | .images overrides => (c.images overrides).1

/-! ## Sources -/

/-- Where the word of a variable comes from. -/
inductive Source where
  | value (q : Quantity)
  | mask (bits : UInt64)

/-- A value is encoded, and a mask taken as it is; variables of other types take it as a
number.  What cannot be encoded is zero. -/
def Source.word (v : Variable) : Source → UInt64
  | .value q => (v.encodeValue q).toOption.getD 0
  | .mask bits =>
      if v.type.isMask then bits else (v.encodeValue (.plain bits.toFloat)).toOption.getD 0

/-- What decides about the words of a program. -/
structure Merge where
  limits : MemoryLimits
  /-- The variables as they were declared. -/
  declared : Table String Variable := Table.empty
  context : Option ResolvedContext := none
  overrides : String → Option Quantity := fun _ => none

namespace Merge

/-- Overrides are of declared variables, and stay as long as these are declared. -/
def perform (m : Merge) : Operation → Merge
  | .load name text => match build m.limits name text with
    | .ok (p, _) =>
        { m with
          declared := p.vars
          overrides := fun name => if p.vars.contains name then m.overrides name else none }
    | .error _ => m
  | .assemble => m
  | .setLimits limits => { m with limits }
  | .setContext context => { m with context }
  | .update values =>
      { m with
        overrides := fun name =>
          if m.declared.contains name then (values.get? name).or (m.overrides name)
          else m.overrides name }
  | .images _ => m

/-- The masks and values of a context come after overrides and before declarations. -/
def source (m : Merge) (once : Table String Quantity) (v : Variable) : Source :=
  ([(once.get? v.name).map .value,
    (m.overrides v.name).map .value,
    (m.context.bind fun c => c.counters.get? v.name).map .mask,
    (m.context.bind fun c => c.triggers.get? v.name).map .mask,
    (m.context.bind fun c => c.shutters.get? v.name).map .mask,
    (m.context.bind fun c => c.values.get? v.name).map .value,
    v.mask.map .mask].findSome? id).getD (.value v.value)

/-- A context switches off those of its own variables that it disables. -/
def disables (m : Merge) (name : String) : Bool :=
  m.context.any fun c => decide (name ∈ c.values.keys) && decide (name ∈ c.disabled)

def word (m : Merge) (once : Table String Quantity) (v : Variable) : UInt64 :=
  if m.disables v.name then 0 else (m.source once v).word v

end Merge

/-! ## One variable -/

section Variable

/-- The variable with what a source gives it. -/
def Source.give (v : Variable) : Source → Variable
  | .value q => withValue v q
  | .mask bits => withMask v bits

/-- The variable with what a source gives it, if there is one. -/
def Source.onto (s : Option Source) (v : Variable) : Variable := s.elim v (give v)

variable {v : Variable} {s t : Option Source}

theorem Source.onto_name : (onto s v).name = v.name := by
  rcases s with _ | _ | _ <;> rfl

/-- The later source wins. -/
theorem Source.onto_onto : onto s (onto t v) = onto (s.or t) v := by
  rcases s with _ | _ | _ <;> rcases t with _ | _ | _ <;> rfl

theorem Source.onto_switched (enabled : Bool) :
    onto s (v.switched enabled) = (onto s v).switched enabled := by
  rcases s with _ | _ | _ <;> rfl

theorem changed_withValue (values : Table String Quantity) (v : Variable) :
    changed withValue values.entries v = Source.onto ((values.get? v.name).map .value) v := by
  rw [changed, ← Table.get?]
  cases values.get? v.name <;> rfl

theorem changed_withMask (masks : Table String UInt64) (v : Variable) :
    changed withMask masks.entries v = Source.onto ((masks.get? v.name).map .mask) v := by
  rw [changed, ← Table.get?]
  cases masks.get? v.name <;> rfl

/-- What a context gives to a variable: masks go before values. -/
theorem change_eq_onto (c : ResolvedContext) (v : Variable) :
    c.change v =
      let given := Source.onto (((c.counters.get? v.name).map .mask).or
        (((c.triggers.get? v.name).map .mask).or (((c.shutters.get? v.name).map .mask).or
          ((c.values.get? v.name).map .value)))) v
      if v.name ∈ c.values.keys then given.switched (decide (v.name ∉ c.disabled))
      else given := by
  simp only [ResolvedContext.change, changed_withValue, changed_withMask, Source.onto_name,
    Source.onto_onto]

/-- The word of a variable that has been given a source. -/
theorem word_give {f : Variable → Variable} (resets : Variable.Resets f) (v : Variable)
    (source : Source) (enabled : Bool) :
    ((source.give (f v)).switched enabled).word = if enabled then source.word v else 0 := by
  rw [resets v]
  cases source with
  | value q => rfl
  | mask bits =>
      by_cases masks : v.type.isMask = true
      · simp only [Source.give, withMask, Variable.switched, Variable.word, Variable.encode,
          Source.word, masks, if_true]
        rfl
      · simp only [Source.give, withMask, Variable.switched, Variable.word, Variable.encode,
          Source.word, masks]
        rfl

end Variable

/-! ## One image -/

/-- The change that an image makes of a variable. -/
def merged (c : Controller) (once : Table String Quantity) (v : Variable) : Variable :=
  let v := changed withValue c.defaults.entries v
  let v := changed withMask c.defaultMasks.entries v
  let v := if v.name ∈ c.defaults.keys then v.switched true else v
  let v := c.context.elim v fun context => context.change v
  let v := changed withValue c.overrides.entries v
  changed withValue (c.declared once).entries v

theorem foldl_thenApply (steps : List (Program → Updated)) (done : Program × List Notice) :
    (steps.foldl thenApply done).1 = steps.foldl (fun p step => (step p).program) done.1 :=
  (List.foldl_hom Prod.fst fun _ _ => rfl).symm

/-- **An image changes every variable by all sources in their order.** -/
theorem program_images {c : Controller} (coherent : c.program.Coherent)
    (once : Table String Quantity) :
    (c.images once).1.program = c.program.revise (c.merged once) ∧
      Variable.Resets (c.merged once) := by
  have first := (Program.revises_updateVariables c.defaults).comp
    (Program.revises_updateMasks c.defaultMasks)
  have enabled : Program.Revises
      (fun p => ⟨c.defaults.keys.foldl (fun p name => (p.setEnabled name true).program) p, [], []⟩)
      (fun v => if v.name ∈ c.defaults.keys then v.switched true else v) :=
    ⟨fun v => by split <;> rfl,
      fun p coherent => Program.foldl_setEnabled (fun _ => true) c.defaults.keys coherent⟩
  have context : Program.Revises (fun p => ⟨(c.context.map ResolvedContext.apply).toList.foldl
      (fun p step => (step p).program) p, [], []⟩)
      (fun v => c.context.elim v fun context => context.change v) := by
    cases c.context with
    | none => exact ⟨fun _ => rfl, fun p coherent => (Program.revise_self coherent).symm⟩
    | some context =>
        have applied := ResolvedContext.revises_apply context
        exact ⟨applied.resets, fun p coherent => applied.program p coherent⟩
  have last := (Program.revises_updateVariables c.overrides).comp
    (Program.revises_updateVariables (c.declared once))
  have all := ((first.comp enabled).comp context).comp last
  have steps : (c.images once).1.program =
      ((c.sources.foldl (fun p step => (step p).program) c.program).updateVariables
        (c.declared once)).program := by
    rw [← foldl_thenApply c.sources (c.program, [])]
    rfl
  refine ⟨?_, all.resets⟩
  rw [steps, sources]
  simp only [List.foldl_append, List.foldl_map, List.foldl_cons, List.foldl_nil]
  exact all.program c.program coherent

/-! ## Every history -/

/-- A merge tells what a controller has been given. -/
structure Tracks (c : Controller) (m : Merge) : Prop where
  limits : c.program.limits = m.limits
  /-- The declarations are those of the sources. -/
  source : ∃ d, Assembler.firstPass c.program.sources.lines.toList = .ok d ∧ d.vars = m.declared
  coherent : c.program.Coherent
  cells : ∃ f, Variable.Resets f ∧ c.program.vars = m.declared.map fun _ v => f v
  defaults : c.defaults = m.declared.map fun _ v => v.value
  masks : ∀ name, c.defaultMasks.get? name = (m.declared.get? name).bind (·.mask)
  context : c.context = m.context
  overrides : ∀ name, c.overrides.get? name = m.overrides name

section Tracks

variable {c : Controller} {m : Merge}

theorem tracks_withLimits (limits : MemoryLimits) : Tracks (withLimits limits) { limits } where
  limits := rfl
  source := ⟨{}, rfl, rfl⟩
  coherent := ⟨fun _ _ found => (by cases found), rfl⟩
  cells := ⟨_, Variable.Resets.id, rfl⟩
  defaults := rfl
  masks _ := rfl
  context := rfl
  overrides _ := rfl

theorem Tracks.placed (tracks : Tracks c m) {slot : Nat} {entry : String × Variable}
    (found : m.declared.entries[slot]? = some entry) : entry.2.Placed entry.1 slot := by
  obtain ⟨d, passed, same⟩ := tracks.source
  exact (Assembler.draftedFrom_of_firstPass passed).placed slot entry (same ▸ found)

theorem Tracks.name_eq (tracks : Tracks c m) {name : String} {v : Variable}
    (found : m.declared.get? name = some v) : v.name = name := by
  obtain ⟨slot, place⟩ := List.mem_iff_getElem?.1 (Table.get?_eq_some_iff.1 found)
  exact (tracks.placed place).name_eq

theorem Tracks.contains (tracks : Tracks c m) (name : String) :
    c.defaults.contains name = m.declared.contains name := by
  rw [tracks.defaults, Table.contains, Table.get?_map, Option.isSome_map, Table.contains]

/-- A program that is changed in its variables only. -/
theorem Tracks.revise (tracks : Tracks c m) {f : Variable → Variable} (resets : Variable.Resets f) :
    Tracks { c with program := c.program.revise f } m := by
  obtain ⟨g, others, cells⟩ := tracks.cells
  exact { tracks with
    coherent := Program.coherent_revise tracks.coherent resets
    cells := ⟨_, others.comp resets, by
      rw [Program.revise, cells]
      exact Table.map_map (fun _ v => g v) fun _ v => f v⟩ }

/-- What was loaded is what its sources declare. -/
theorem declared_of_load {limits : MemoryLimits} {name text : String} {library : Library}
    {p : Program} {notices : List Notice}
    (loaded : (Program.withLimits limits).load name text library = .ok (p, notices)) :
    p.limits = limits ∧ p.Coherent ∧
      ∃ d, Assembler.firstPass p.sources.lines.toList = .ok d ∧ d.vars = p.vars := by
  rw [Program.load] at loaded
  obtain ⟨sources, _, ran⟩ := bind_eq_ok.1 loaded
  obtain ⟨d, passed, tables, _, _, _, same, from', _⟩ := Assembler.drafted_of_run ran
  exact ⟨same, coherent_of_run ran, d, from' ▸ passed, tables.vars.symm⟩

/-- What was built is what its sources declare. -/
theorem built {limits : MemoryLimits} {name text : String} {p : Program} {notices : List Notice}
    (ran : build limits name text = .ok (p, notices)) :
    p.limits = limits ∧ p.Coherent ∧
      ∃ d, Assembler.firstPass p.sources.lines.toList = .ok d ∧ d.vars = p.vars := by
  rw [build] at ran
  split at ran
  · obtain ⟨assembly, _, ran⟩ := bind_eq_ok.1 ran
    obtain ⟨⟨q, _⟩, made, ran⟩ := bind_eq_ok.1 ran
    obtain ⟨rfl, _⟩ := Prod.mk.inj (Except.ok.inj ran)
    obtain ⟨same, coherent, declared⟩ := declared_of_load (ok_of_mapError made)
    exact ⟨same, ⟨coherent.placed, coherent.data⟩, declared⟩
  · exact declared_of_load (ok_of_mapError ran)

/-- The masks that are kept are those of the variables. -/
theorem get?_masks {vars : Table String Variable} (named : ∀ entry ∈ vars.entries,
    entry.2.name = entry.1) (name : String) :
    (Table.ofList (vars.values.filterMap fun v => v.mask.map fun mask => (v.name, mask))).get? name =
      (vars.get? name).bind (·.mask) := by
  have pairs : vars.values.filterMap (fun v => v.mask.map fun mask => (v.name, mask)) =
      vars.entries.filterMap fun entry => entry.2.mask.map fun mask => (entry.1, mask) := by
    rw [Table.values, List.filterMap_map]
    exact List.filterMap_congr fun entry there => by
      simp only [Function.comp_apply, named entry there]
  have nodup : ((vars.entries.filterMap fun entry =>
      entry.2.mask.map fun mask => (entry.1, mask)).map Prod.fst).Nodup := by
    refine vars.nodup.sublist ?_
    rw [List.map_filterMap]
    have kept : ∀ entry : String × Variable, Option.map Prod.fst
        (entry.2.mask.map fun mask => (entry.1, mask)) =
          if entry.2.mask.isSome then some entry.1 else none := by
      rintro ⟨key, v⟩
      cases v.mask <;> rfl
    rw [List.filterMap_congr fun entry _ => kept entry]
    induction vars.entries with
    | nil => exact .refl _
    | cons entry rest ih =>
        rw [List.filterMap_cons]
        split
        · exact (ih).cons _
        · rename_i found
          split at found
          · obtain rfl := Option.some.inj found
            exact ih.cons_cons _
          · cases found
  rw [pairs, Table.ofList, Table.get?_insertAll nodup, Table.get?_empty, Option.or_none]
  refine Option.ext fun mask => ?_
  rw [Table.lookup_eq_some_iff nodup, List.mem_filterMap, Option.bind_eq_some_iff]
  constructor
  · rintro ⟨⟨key, v⟩, there, found⟩
    obtain ⟨bits, held, same⟩ := Option.map_eq_some_iff.1 found
    obtain ⟨rfl, rfl⟩ := Prod.mk.inj same
    exact ⟨v, Table.get?_eq_some_iff.2 there, held⟩
  · rintro ⟨v, found, held⟩
    exact ⟨(name, v), Table.get?_eq_some_iff.1 found, by simp only [held, Option.map_some]⟩

/-- A program that is taken over brings its declarations. -/
theorem Tracks.install (tracks : Tracks c m) {p : Program} (limits : p.limits = m.limits)
    (coherent : p.Coherent)
    (declared : ∃ d, Assembler.firstPass p.sources.lines.toList = .ok d ∧ d.vars = p.vars) :
    Tracks (c.install p).1
      { m with
        declared := p.vars
        overrides := fun name => if p.vars.contains name then m.overrides name else none } where
  limits := limits
  source := declared
  coherent := coherent
  cells := ⟨_, Variable.Resets.id, (Table.map_value p.vars).symm⟩
  defaults := rfl
  masks := get?_masks fun entry there => coherent.name_eq there
  context := tracks.context
  overrides key := by
    have defaults : ∀ key, (p.vars.map fun _ v => v.value).contains key = p.vars.contains key :=
      fun key => by rw [Table.contains, Table.get?_map, Option.isSome_map, Table.contains]
    show (c.overrides.filter _).get? key = if p.vars.contains key then m.overrides key else none
    rw [Table.get?_filter, tracks.overrides]
    simp only [defaults]
    cases p.vars.contains key <;> cases m.overrides key <;> rfl

theorem Tracks.load (tracks : Tracks c m) (name text : String) :
    Tracks (c.perform (.load name text)) (m.perform (.load name text)) := by
  rw [perform, Controller.load, Merge.perform, tracks.limits]
  cases ran : build m.limits name text with
  | error e => exact tracks
  | ok made =>
      obtain ⟨limits, coherent, declared⟩ := built ran
      exact tracks.install limits coherent declared

theorem Tracks.assemble (tracks : Tracks c m) :
    Tracks (c.perform .assemble) (m.perform .assemble) := by
  rw [perform, Controller.assemble, Program.assemble, Merge.perform]
  cases ran : Assembler.run c.program.limits c.program.sources with
  | error e => exact tracks
  | ok made =>
      obtain ⟨p, notices⟩ := made
      obtain ⟨d, passed, tables, _, _, _, limits, sources, _⟩ := Assembler.drafted_of_run ran
      obtain ⟨e, passed', declared⟩ := tracks.source
      obtain rfl := Except.ok.inj (passed.symm.trans passed')
      have coherent := coherent_of_run ran
      exact { tracks with
        limits := limits.trans tracks.limits
        source := ⟨d, sources ▸ passed, declared⟩
        coherent := ⟨coherent.placed, coherent.data⟩
        cells := ⟨_, Variable.Resets.id,
          (tables.vars.trans declared).trans (Table.map_value m.declared).symm⟩ }

theorem Tracks.update (tracks : Tracks c m) (values : Table String Quantity) :
    Tracks (c.perform (.update values)) (m.perform (.update values)) := by
  have revises := Program.revises_updateVariables values
  have program := revises.program c.program tracks.coherent
  rw [perform, updateVariables, Merge.perform]
  dsimp only
  rw [program]
  exact { tracks.revise revises.resets with
    overrides := fun key => by
      show (c.overrides.insertAll (c.declared values).entries).get? key =
        if m.declared.contains key then (values.get? key).or (m.overrides key)
        else m.overrides key
      rw [Table.get?_insertAll_entries, Controller.declared, Table.get?_filter, tracks.contains,
        tracks.overrides]
      cases m.declared.contains key <;> cases values.get? key <;> rfl }

theorem Tracks.images (tracks : Tracks c m) (once : Table String Quantity) :
    Tracks (c.perform (.images once)) (m.perform (.images once)) := by
  obtain ⟨program, resets⟩ := program_images tracks.coherent once
  have same : (c.images once).1 = { c with program := c.program.revise (c.merged once) } := by
    rw [← program]
    rfl
  rw [perform, Merge.perform, same]
  exact tracks.revise resets

/-- **What every operation keeps.** -/
theorem Tracks.perform (tracks : Tracks c m) (operation : Operation) :
    Tracks (c.perform operation) (m.perform operation) := by
  cases operation with
  | load name text => exact tracks.load name text
  | assemble => exact tracks.assemble
  | setLimits limits =>
      exact { tracks with
        limits := rfl
        coherent := ⟨tracks.coherent.placed, tracks.coherent.data⟩ }
  | setContext context => exact { tracks with context := rfl }
  | update values => exact tracks.update values
  | images once => exact tracks.images once

theorem Tracks.foldl (tracks : Tracks c m) (history : List Operation) :
    Tracks (history.foldl Controller.perform c) (history.foldl Merge.perform m) := by
  induction history generalizing c m with
  | nil => exact tracks
  | cons operation rest ih => exact ih (tracks.perform operation)

/-- **The merged variable is given the first source there is.** -/
theorem Tracks.merged_eq (tracks : Tracks c m) (once : Table String Quantity)
    {f : Variable → Variable} (resets : Variable.Resets f) {v : Variable}
    (found : m.declared.get? v.name = some v) :
    c.merged once (f v) =
      ((m.source once v).give (f v)).switched (!m.disables v.name) := by
  have default' : c.defaults.get? v.name = some v.value := by
    rw [tracks.defaults, Table.get?_map, found, Option.map_some]
  have mask : c.defaultMasks.get? v.name = v.mask := by rw [tracks.masks, found, Option.bind_some]
  have known : v.name ∈ c.defaults.keys := Table.mem_keys_iff.2 ⟨_, default'⟩
  have once' : (c.declared once).get? v.name = once.get? v.name := by
    rw [Controller.declared, Table.get?_filter, tracks.contains, Table.contains, found]
    cases once.get? v.name <;> rfl
  have name : (f v).name = v.name := resets.name_eq v
  have first : ∀ (o : Option Source) (s : Source), (o.getD s).give (f v) =
      Source.onto (o.or (some s)) (f v) := by
    intro o s
    cases o <;> rfl
  rw [Merge.source, first, Merge.disables, ← tracks.context]
  simp only [merged, changed_withValue, changed_withMask, Source.onto_name, name, known, if_true,
    tracks.overrides, default', mask, Option.map_some, findSome?_cons_eq_or, id_eq, Option.or_assoc]
  cases c.context with
  | none =>
      simp only [Option.elim_none, Source.onto_name, Variable.switched_name, name, once',
        Source.onto_switched, Source.onto_onto]
      rfl
  | some context =>
      by_cases listed : v.name ∈ context.values.keys
      · simp only [Option.elim_some, change_eq_onto, Source.onto_name, Variable.switched_name, name,
          listed, if_true, once', Source.onto_switched, Source.onto_onto, Option.bind_some,
          Option.any_some, Option.or_assoc, decide_not, decide_true, Bool.true_and]
        rfl
      · simp only [Option.elim_some, change_eq_onto, Source.onto_name, Variable.switched_name, name,
          listed, if_false, once', Source.onto_switched, Source.onto_onto, Option.bind_some,
          Option.any_some, Option.or_assoc, decide_false, Bool.false_and]
        rfl

end Tracks

/-- **After every history an image holds the words of the merge.** -/
theorem images_eq_merge (limits : MemoryLimits) (history : List Operation)
    (once : Table String Quantity) :
    let c := history.foldl perform (withLimits limits)
    let m := history.foldl Merge.perform { limits }
    (c.images once).2.1.data = bytesOfWords (m.declared.values.map (m.word once)) ∧
      ∀ (slot : Nat) (v : Variable), m.declared.values[slot]? = some v → v.slot = slot := by
  intro c m
  have tracks : Tracks c m := (tracks_withLimits limits).foldl history
  obtain ⟨program, _⟩ := program_images tracks.coherent once
  obtain ⟨f, resets, cells⟩ := tracks.cells
  refine ⟨?_, fun slot v found => ?_⟩
  · have data : (c.images once).2.1.data = (c.images once).1.program.dataImage := rfl
    rw [data, program, Program.dataImage, Program.revise, cells, Program.values_map, List.map_map]
    congr 1
    rw [Table.values, List.map_map, List.map_map]
    refine List.map_congr_left fun entry there => ?_
    obtain ⟨name, v⟩ := entry
    have found := Table.get?_eq_some_iff.2 there
    obtain rfl := tracks.name_eq found
    exact (congrArg Variable.word (tracks.merged_eq once resets found)).trans
      ((word_give resets v _ _).trans (by
        show _ = m.word once v
        rw [Merge.word]
        cases m.disables v.name <;> rfl))
  · rw [Table.values, List.getElem?_map, Option.map_eq_some_iff] at found
    obtain ⟨entry, place, rfl⟩ := found
    exact (tracks.placed place).slot_eq

end PulseSequencer.Controller
