import PulseSequencer.Program.Context
import PulseSequencer.Proofs.Program.LineByLine

/-
# PulseSequencer.Proofs.Program.Coherence -- changes of values, one variable at a time

A program is `Coherent` if every variable stands in its slot and the data image holds
the word of each.  On such a program the operations that change values are changes of
the single variables (`revise`): `revises_updateEach`, `revises_setEnabled` and
`revises_apply` tell which, and `coherent_revise` that the program stays coherent.
-/

namespace PulseSequencer

set_option autoImplicit false

/-! ## Variables -/

/-- The variable switched on or off. -/
def Variable.switched (on : Bool) (v : Variable) : Variable := { v with enabled := on }

@[simp] theorem Variable.switched_name (on : Bool) (v : Variable) :
    (v.switched on).name = v.name := rfl

/-- A change of value, mask and enabling that leaves the declaration. -/
def Variable.Resets (f : Variable → Variable) : Prop :=
  ∀ v, f v = { v with value := (f v).value, mask := (f v).mask, enabled := (f v).enabled }

namespace Variable.Resets

variable {f g : Variable → Variable}

theorem id : Resets fun v => v := fun _ => rfl

theorem comp (first : Resets f) (second : Resets g) : Resets fun v => g (f v) := by
  intro v
  dsimp only
  rw [second (f v), first v]

theorem name_eq (resets : Resets f) (v : Variable) : (f v).name = v.name := by rw [resets v]

theorem slot_eq (resets : Resets f) (v : Variable) : (f v).slot = v.slot := by rw [resets v]

theorem placed (resets : Resets f) {v : Variable} {name : String} {slot : Nat}
    (placed : v.Placed name slot) : (f v).Placed name slot := by
  rw [resets v]
  exact ⟨placed.name_eq, placed.slot_eq, placed.address_eq⟩

end Variable.Resets

namespace Program

variable {p : Program} {f g : Variable → Variable}

/-! ## Programs -/

/-- Every variable stands in its slot, and the data image holds its word. -/
structure Coherent (p : Program) : Prop where
  placed : ∀ (slot : Nat) (entry : String × Variable), p.vars.entries[slot]? = some entry →
    entry.2.Placed entry.1 slot
  data : p.data = p.vars.values.map Variable.word

/-- The program with every variable changed where it stands. -/
def revise (p : Program) (f : Variable → Variable) : Program :=
  { p with
    vars := p.vars.map fun _ v => f v
    data := p.vars.values.map fun v => (f v).word }

theorem values_map {κ α β : Type} [DecidableEq κ] (t : Table κ α) (f : α → β) :
    (t.map fun _ v => f v).values = t.values.map f := by
  simp [Table.values, Table.map, Function.comp_def]

theorem revise_revise (p : Program) (f g : Variable → Variable) :
    (p.revise f).revise g = p.revise fun v => g (f v) := by
  rw [revise, revise, revise]
  dsimp only
  rw [Table.map_map, values_map, List.map_map]
  rfl

theorem Coherent.name_eq (coherent : p.Coherent) {name : String} {v : Variable}
    (there : (name, v) ∈ p.vars.entries) : v.name = name := by
  obtain ⟨slot, found⟩ := List.mem_iff_getElem?.1 there
  exact (coherent.placed slot _ found).name_eq

theorem Coherent.getElem?_of_find? (coherent : p.Coherent) {name : String} {v : Variable}
    (found : p.find? name = some v) :
    p.vars.entries[v.slot]? = some (name, v) ∧ v.name = name := by
  have there := Table.get?_eq_some_iff.1 found
  obtain ⟨slot, place⟩ := List.mem_iff_getElem?.1 there
  obtain rfl := (coherent.placed slot _ place).slot_eq
  exact ⟨place, coherent.name_eq there⟩

/-- The words of the data image, slot by slot. -/
theorem Coherent.getElem?_data (coherent : p.Coherent) (slot : Nat) :
    p.data[slot]? = (p.vars.entries[slot]?).map fun entry => entry.2.word := by
  rw [coherent.data, Table.values, List.map_map, List.getElem?_map]
  rfl

theorem Coherent.getElem?_data_of_find? (coherent : p.Coherent) {name : String} {v : Variable}
    (found : p.find? name = some v) : p.data[v.slot]? = some v.word := by
  rw [coherent.getElem?_data, (coherent.getElem?_of_find? found).1, Option.map_some]

theorem find?_revise (name : String) : (p.revise f).find? name = (p.find? name).map f :=
  Table.get?_map _

theorem coherent_revise (coherent : p.Coherent) (resets : Variable.Resets f) :
    (p.revise f).Coherent where
  placed slot entry found := by
    rw [revise, Table.map, List.getElem?_map, Option.map_eq_some_iff] at found
    obtain ⟨⟨name, v⟩, place, rfl⟩ := found
    exact resets.placed (coherent.placed slot _ place)
  data := by rw [revise, values_map, List.map_map]; rfl

theorem revise_congr (same : ∀ name v, (name, v) ∈ p.vars.entries → f v = g v) :
    p.revise f = p.revise g := by
  have vars : p.vars.map (fun _ v => f v) = p.vars.map fun _ v => g v := Table.map_congr same
  have data : p.vars.values.map (fun v => (f v).word) = p.vars.values.map fun v => (g v).word := by
    rw [Table.values, List.map_map, List.map_map]
    exact List.map_congr_left fun entry there => congrArg Variable.word (same entry.1 entry.2 there)
  rw [revise, revise, vars, data]

theorem revise_self (coherent : p.Coherent) : p.revise (fun v => v) = p := by
  rw [revise, Table.map_value, ← coherent.data]

/-- To store a variable is to change the one of its name. -/
theorem store_eq_revise (coherent : p.Coherent) (resets : Variable.Resets f) {name : String}
    {v : Variable} (found : p.find? name = some v) :
    p.store (f v) = p.revise fun u => if u.name = name then f u else u := by
  obtain ⟨place, rfl⟩ := coherent.getElem?_of_find? found
  have slot : (f v).slot = v.slot := by rw [resets v]
  -- the variable of this name stands in this slot only
  have once : ∀ j entry, p.vars.entries[j]? = some entry →
      (entry.2.name = v.name ↔ v.slot = j) := by
    intro j entry there
    have named := (coherent.placed j entry there).name_eq
    constructor
    · intro same
      have key : entry = (v.name, entry.2) := Prod.ext (named.symm.trans same) rfl
      have value := Table.get?_eq_some_iff.2 (key ▸ List.mem_of_getElem? there)
      obtain rfl : v = entry.2 := Option.some.inj (found.symm.trans value)
      exact (coherent.placed j entry there).slot_eq
    · rintro rfl
      rw [Option.some.inj (there.symm.trans place)]
  have entries : p.vars.entries.set v.slot (v.name, f v) =
      p.vars.entries.map fun (k, u) => (k, if u.name = v.name then f u else u) := by
    refine List.ext_getElem? fun j => ?_
    rw [List.getElem?_set, List.getElem?_map]
    cases there : p.vars.entries[j]? with
    | none =>
        have outside : v.slot ≠ j := by
          rintro rfl
          exact absurd (there.symm.trans place) (by simp)
        simp [outside]
    | some entry =>
        obtain ⟨k, u⟩ := entry
        simp only [Option.map_some, once j (k, u) there]
        by_cases here : v.slot = j
        · subst here
          obtain ⟨rfl, rfl⟩ := Prod.mk.inj (Option.some.inj (place.symm.trans there))
          simp [(List.getElem?_eq_some_iff.1 place).1]
        · simp [here]
  have vars : p.vars.insert v.name (f v) =
      p.vars.map fun _ u => if u.name = v.name then f u else u :=
    Table.ext_entries ((Table.entries_insert_of_getElem? place).trans entries)
  have data : p.data.set v.slot (f v).word =
      p.vars.values.map fun u => (if u.name = v.name then f u else u).word := by
    have words := congrArg (List.map fun entry => entry.2.word) entries
    rw [List.map_set, List.map_map] at words
    rw [coherent.data, Table.values, List.map_map, List.map_map]
    exact words
  rw [store, slot, resets.name_eq, vars, data, revise]

theorem not_named (coherent : p.Coherent) {name : String} (absent : p.find? name = none) :
    ∀ key v, (key, v) ∈ p.vars.entries → v.name ≠ name := by
  intro key v there same
  obtain rfl := (coherent.name_eq there).symm.trans same
  rw [find?, Table.get?_eq_some_iff.2 there] at absent
  cases absent

/-! ## Changes -/

/-- A step that changes every variable of a coherent program in the same way. -/
structure Revises (step : Program → Updated) (f : Variable → Variable) : Prop where
  resets : Variable.Resets f
  program : ∀ p : Program, p.Coherent → (step p).program = p.revise f

theorem Revises.coherent {step : Program → Updated} (revises : Revises step f)
    (coherent : p.Coherent) : (step p).program.Coherent := by
  rw [revises.program p coherent]
  exact coherent_revise coherent revises.resets

section Each

variable {α : Type} {change : Variable → α → Variable}

theorem updateOne_eq_revise (resets : ∀ a, Variable.Resets fun v => change v a) {u : Updated}
    (coherent : u.program.Coherent) (name : String) (a : α) :
    (updateOne change u name a).program =
      u.program.revise fun v => if v.name = name then change v a else v := by
  rw [updateOne]
  split
  · rename_i absent
    rw [revise_congr (g := fun v => v), revise_self coherent]
    intro key v there
    rw [if_neg (not_named coherent absent key v there)]
  · rename_i v found
    exact store_eq_revise (f := fun v => change v a) coherent (resets a) found

theorem resets_ite {name : String} (resets : Variable.Resets f) :
    Variable.Resets fun v => if v.name = name then f v else v := by
  intro v
  dsimp only
  split
  · exact resets v
  · rfl

/-- The change of a variable by the value of its name, if there is one. -/
def changed (change : Variable → α → Variable) (values : List (String × α)) (v : Variable) :
    Variable :=
  (values.lookup v.name).elim v (change v)

theorem resets_changed (resets : ∀ a, Variable.Resets fun v => change v a)
    (values : List (String × α)) : Variable.Resets (changed change values) := by
  intro v
  rw [changed]
  cases values.lookup v.name with
  | none => rfl
  | some a => exact resets a v

theorem foldl_updateOne (resets : ∀ a, Variable.Resets fun v => change v a)
    {values : List (String × α)} (nodup : (values.map Prod.fst).Nodup) {u : Updated}
    (coherent : u.program.Coherent) :
    (values.foldl (fun u (name, value) => updateOne change u name value) u).program =
      u.program.revise (changed change values) := by
  induction values generalizing u with
  | nil => exact (revise_self coherent).symm
  | cons entry rest ih =>
      obtain ⟨name, a⟩ := entry
      rw [List.map_cons, List.nodup_cons] at nodup
      have first := updateOne_eq_revise resets coherent name a
      have next : (updateOne change u name a).program.Coherent :=
        first ▸ coherent_revise coherent (resets_ite (resets a))
      rw [List.foldl_cons, ih nodup.2 next, first, revise_revise]
      refine revise_congr fun key v _ => ?_
      rw [changed, changed, List.lookup_cons]
      by_cases here : v.name = name
      · subst here
        have absent : rest.lookup v.name = none := Table.lookup_of_not_mem nodup.1
        have named : (change v a).name = v.name := (resets a).name_eq v
        simp [named, absent]
      · simp [here, beq_eq_false_iff_ne.2 here]

/-- **A series of changes changes each variable by the value of its name.** -/
theorem revises_updateEach (resets : ∀ a, Variable.Resets fun v => change v a)
    (values : Table String α) :
    Revises (fun p => updateEach change p values) (changed change values.entries) where
  resets := resets_changed resets values.entries
  program _ coherent := foldl_updateOne resets values.nodup coherent

end Each

theorem resets_withValue (q : Quantity) : Variable.Resets fun v => withValue v q := fun _ => rfl

theorem resets_withMask (mask : UInt64) : Variable.Resets fun v => withMask v mask := fun _ => rfl

theorem revises_updateVariables (values : Table String Quantity) :
    Revises (fun p => p.updateVariables values) (changed withValue values.entries) :=
  revises_updateEach resets_withValue values

theorem revises_updateMasks (masks : Table String UInt64) :
    Revises (fun p => p.updateMasks masks) (changed withMask masks.entries) :=
  revises_updateEach resets_withMask masks

theorem resets_switched (on : Bool) : Variable.Resets (Variable.switched on) := fun _ => rfl

theorem revises_setEnabled (name : String) (enabled : Bool) :
    Revises (fun p => p.setEnabled name enabled)
      (fun v => if v.name = name then v.switched enabled else v) where
  resets := resets_ite (resets_switched enabled)
  program p coherent := by
    rw [setEnabled]
    split
    · rename_i absent
      rw [revise_congr (g := fun v => v), revise_self coherent]
      intro key v there
      rw [if_neg (not_named coherent absent key v there)]
    · rename_i v found
      split
      · rename_i already
        rw [revise_congr (g := fun v => v), revise_self coherent]
        intro key u there
        split
        · rename_i same
          have key' : (name, u) ∈ p.vars.entries := by
            rwa [← same, coherent.name_eq there]
          obtain rfl : v = u :=
            Option.some.inj (found.symm.trans (Table.get?_eq_some_iff.2 key'))
          rw [← already]
          rfl
        · rfl
      · exact store_eq_revise (f := Variable.switched enabled) coherent
          (resets_switched enabled) found

/-- One step after another. -/
theorem Revises.comp {first second : Program → Updated} (one : Revises first f)
    (other : Revises second g) :
    Revises (fun p => second (first p).program) (fun v => g (f v)) where
  resets := one.resets.comp other.resets
  program p coherent := by
    rw [other.program _ (one.coherent coherent), one.program p coherent, revise_revise]

/-- Switching variables on or off, one after the other. -/
theorem foldl_setEnabled (on : String → Bool) (names : List String) (coherent : p.Coherent) :
    names.foldl (fun p name => (p.setEnabled name (on name)).program) p =
      p.revise fun v => if v.name ∈ names then v.switched (on v.name) else v := by
  induction names generalizing p with
  | nil =>
      rw [revise_congr (g := fun v => v), revise_self coherent]
      · rfl
      · exact fun key v _ => if_neg List.not_mem_nil
  | cons name rest ih =>
      have revises := revises_setEnabled name (on name)
      rw [List.foldl_cons, ih (revises.coherent coherent), revises.program p coherent,
        revise_revise]
      refine revise_congr fun key v _ => ?_
      by_cases here : v.name = name
      · subst here
        by_cases again : v.name ∈ rest <;> simp [again, Variable.switched]
      · simp [here]

end Program

namespace ResolvedContext

open Program

variable {f : Variable → Variable}

/-- The change that a context makes of a variable. -/
def change (c : ResolvedContext) (v : Variable) : Variable :=
  let v := changed withValue c.values.entries v
  let v := changed withMask c.shutters.entries v
  let v := changed withMask c.triggers.entries v
  let v := changed withMask c.counters.entries v
  if v.name ∈ c.values.keys then v.switched (decide (v.name ∉ c.disabled)) else v

theorem revises_apply (c : ResolvedContext) : Revises c.apply c.change where
  resets := by
    have values := (revises_updateVariables c.values).resets
    have shutters := (revises_updateMasks c.shutters).resets
    have triggers := (revises_updateMasks c.triggers).resets
    have counters := (revises_updateMasks c.counters).resets
    have enabled : Variable.Resets fun v =>
        if v.name ∈ c.values.keys then v.switched (decide (v.name ∉ c.disabled)) else v := by
      intro v
      dsimp only
      split <;> rfl
    exact (((values.comp shutters).comp triggers).comp counters).comp enabled
  program p coherent := by
    have masked := (((revises_updateVariables c.values).comp (revises_updateMasks c.shutters)).comp
      (revises_updateMasks c.triggers)).comp (revises_updateMasks c.counters)
    have switched := foldl_setEnabled (fun name => decide (name ∉ c.disabled)) c.values.keys
      (masked.coherent coherent)
    rw [masked.program p coherent, revise_revise] at switched
    have onPrograms : ∀ u : Updated, (c.values.keys.foldl (fun u name =>
        thenUpdate u fun p => p.setEnabled name (decide (name ∉ c.disabled))) u).program =
          c.values.keys.foldl (fun p name =>
            (p.setEnabled name (decide (name ∉ c.disabled))).program) u.program :=
      fun u => (List.foldl_hom Updated.program fun _ _ => rfl).symm
    rw [apply, onPrograms]
    exact (congrArg (fun p => c.values.keys.foldl (fun p name =>
      (p.setEnabled name (decide (name ∉ c.disabled))).program) p)
        (masked.program p coherent)).trans switched

end ResolvedContext

/-- **What is assembled is coherent.** -/
theorem coherent_of_run {limits : MemoryLimits} {sources : SourceSet} {p : Program}
    {notices : List Notice} (ran : Assembler.run limits sources = .ok (p, notices)) :
    p.Coherent := by
  obtain ⟨d, passed, tables, _, _, data, _⟩ := Assembler.drafted_of_run ran
  have placed := (Assembler.draftedFrom_of_firstPass passed).placed
  rw [← tables.vars] at placed data
  exact ⟨placed, data⟩

end PulseSequencer
