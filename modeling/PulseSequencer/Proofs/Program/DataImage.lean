import PulseSequencer.Proofs.Program.Coherence
import Mathlib.Data.List.Nodup

/-
# PulseSequencer.Proofs.Program.DataImage -- the data image after every operation

Programs are only ever made by the operations of `Program.Operation`.  After each of
them the image holds in every slot the word of the variable that stands there: `Shows`
says which word that is, and `coherent_perform` that no operation breaks it.

What an update tells of a variable depends on the program before the update alone
(`changes_updateEach`), so the changes are exact: one for each slot whose word is
another one than before, in the order of the names (`exactChanges_updateEach`), and none
if the same values are given again (`changes_again`).

Main statement: `image_of_operations`.
-/

namespace PulseSequencer

set_option autoImplicit false

/-! ## Words of variables -/

/-- The word that stands for a variable.  An exact mask goes before the value, and a
variable that is switched off or has a value without an encoding is zero. -/
inductive Variable.Shows (v : Variable) : UInt64 → Prop
  | disabled (off : v.enabled = false) : v.Shows 0
  | mask {bits : UInt64} (on : v.enabled = true) (masks : v.type.isMask = true)
      (exact : v.mask = some bits) : v.Shows bits
  | value {word : UInt64} (on : v.enabled = true)
      (unmasked : v.type.isMask = false ∨ v.mask = none)
      (encoded : v.encodeValue v.value = .ok word) : v.Shows word
  | refused {e : EncodingError} (on : v.enabled = true)
      (unmasked : v.type.isMask = false ∨ v.mask = none)
      (failed : v.encodeValue v.value = .error e) : v.Shows 0

theorem Variable.encode_of_unmasked {v : Variable}
    (unmasked : v.type.isMask = false ∨ v.mask = none) : v.encode = v.encodeValue v.value := by
  rw [encode]
  cases exact : v.mask with
  | none => rfl
  | some bits =>
      have free : v.type.isMask = false := unmasked.resolve_right (by simp [exact])
      simp only [free]
      rfl

theorem Variable.shows_word (v : Variable) : v.Shows v.word := by
  rw [word]
  cases on : v.enabled with
  | false => exact .disabled on
  | true =>
      rw [if_pos rfl]
      by_cases masked : v.type.isMask = true ∧ ∃ bits, v.mask = some bits
      · obtain ⟨masks, bits, exact⟩ := masked
        have encoded : v.encode = .ok bits := by simp only [encode, exact, masks, if_true]
        rw [encoded]
        exact .mask on masks exact
      · have unmasked : v.type.isMask = false ∨ v.mask = none := by
          rcases not_and_or.1 masked with free | free
          · exact .inl (Bool.not_eq_true _ ▸ free)
          · exact .inr (Option.eq_none_iff_forall_ne_some.2 fun bits is => free ⟨bits, is⟩)
        rw [encode_of_unmasked unmasked]
        cases encoded : v.encodeValue v.value with
        | ok word => exact .value on unmasked encoded
        | error e => exact .refused on unmasked encoded

namespace Program

variable {p : Program}

/-! ## Operations -/

inductive Operation where
  | load (name text : String) (library : Library)
  | assemble
  | setLimits (limits : MemoryLimits)
  | setVariable (name : String) (value : Quantity)
  | setMask (name : String) (mask : UInt64)
  | setEnabled (name : String) (enabled : Bool)
  | updateVariables (values : Table String Quantity)
  | updateMasks (masks : Table String UInt64)

/-- A program after an operation.  One that fails leaves it as it was. -/
def perform (p : Program) : Operation → Program
  | .load name text library => (p.load name text library).toOption.elim p Prod.fst
  | .assemble => p.assemble.toOption.elim p Prod.fst
  | .setLimits limits => { p with limits }
  | .setVariable name value => (p.setVariable name value).toOption.elim p Updated.program
  | .setMask name mask => (p.setMask name mask).toOption.elim p Updated.program
  | .setEnabled name enabled => (p.setEnabled name enabled).program
  | .updateVariables values => (p.updateVariables values).program
  | .updateMasks masks => (p.updateMasks masks).program

/-- Either the program stays, or one that was assembled takes its place. -/
theorem coherent_elim {made : Except ProgramError (Program × List Notice)} (coherent : p.Coherent)
    (fresh : ∀ q notices, made = .ok (q, notices) → q.Coherent) :
    (made.toOption.elim p Prod.fst).Coherent := by
  cases ran : made with
  | error e => exact coherent
  | ok done => exact fresh done.1 done.2 ran

theorem coherent_load (coherent : p.Coherent) (name text : String) (library : Library) :
    (p.perform (.load name text library)).Coherent := by
  refine coherent_elim coherent fun q notices ran => ?_
  rw [load] at ran
  obtain ⟨sources, _, ran⟩ := bind_eq_ok.1 ran
  exact coherent_of_run ran

theorem coherent_assemble (coherent : p.Coherent) : (p.perform .assemble).Coherent := by
  refine coherent_elim coherent fun q notices ran => ?_
  rw [assemble] at ran
  obtain ⟨⟨made, told⟩, done, same⟩ := bind_eq_ok.1 ran
  obtain ⟨rfl, _⟩ := Prod.mk.inj (Except.ok.inj same)
  have fresh := coherent_of_run done
  exact ⟨fresh.placed, fresh.data⟩

/-- A change of one variable, which has to exist. -/
theorem coherent_change (coherent : p.Coherent) {f : Variable → Variable}
    (resets : Variable.Resets f) (name : String) :
    (((p.findVariable name).map fun v => p.storeReporting (f v)).toOption.elim p
      Updated.program).Coherent := by
  rw [findVariable]
  cases found : p.find? name with
  | none => exact coherent
  | some v =>
      show (p.store (f v)).Coherent
      rw [store_eq_revise coherent resets found]
      exact coherent_revise coherent (resets_ite resets)

/-- **What every operation keeps.** -/
theorem coherent_perform (coherent : p.Coherent) (operation : Operation) :
    (p.perform operation).Coherent := by
  cases operation with
  | load name text library => exact coherent_load coherent name text library
  | assemble => exact coherent_assemble coherent
  | setLimits limits => exact ⟨coherent.placed, coherent.data⟩
  | setVariable name value => exact coherent_change coherent (resets_withValue value) name
  | setMask name mask => exact coherent_change coherent (resets_withMask mask) name
  | setEnabled name enabled => exact (revises_setEnabled name enabled).coherent coherent
  | updateVariables values => exact (revises_updateVariables values).coherent coherent
  | updateMasks masks => exact (revises_updateMasks masks).coherent coherent

/-- **What every run keeps.** -/
theorem coherent_foldl_perform (coherent : p.Coherent) (operations : List Operation) :
    (operations.foldl perform p).Coherent := by
  induction operations generalizing p with
  | nil => exact coherent
  | cons operation rest ih => exact ih (coherent_perform coherent operation)

theorem coherent_withLimits (limits : MemoryLimits) : (withLimits limits).Coherent :=
  ⟨fun _ _ found => (by cases found), rfl⟩

/-! ## What an update tells -/

section Changes

variable {α : Type} {change : Variable → α → Variable} {u : Updated}

/-- The slot of a name. -/
def slotOf? (p : Program) (name : String) : Option Nat := (p.find? name).map Variable.slot

/-- What a value makes known of the variable of its name. -/
def changeOf? (change : Variable → α → Variable) (p : Program) (entry : String × α) :
    Option Change :=
  (p.find? entry.1).bind fun v =>
    if (change v entry.2).word = v.word then none else some (v.slot, (change v entry.2).word)

theorem changes_updateOne (resets : ∀ a, Variable.Resets fun v => change v a)
    (coherent : u.program.Coherent) (name : String) (a : α) :
    (updateOne change u name a).changes =
      u.changes ++ (changeOf? change u.program (name, a)).toList := by
  rw [updateOne, changeOf?]
  cases found : u.program.find? name with
  | none => exact (List.append_nil _).symm
  | some v =>
      have held : u.program.wordAt v.slot = v.word := by
        rw [wordAt, coherent.getElem?_data_of_find? found, Option.getD_some]
      have slot : (change v a).slot = v.slot := (resets a).slot_eq v
      rw [Option.bind_some]
      dsimp only
      rw [held, slot]
      split
      · exact (List.append_nil _).symm
      · rfl

/-- Variables of other names are left alone. -/
theorem find?_updateOne (resets : ∀ a, Variable.Resets fun v => change v a)
    (coherent : u.program.Coherent) {name other : String} (different : other ≠ name) (a : α) :
    (updateOne change u name a).program.find? other = u.program.find? other := by
  rw [updateOne_eq_revise resets coherent, find?_revise]
  cases found : u.program.find? other with
  | none => rfl
  | some v =>
      obtain ⟨_, rfl⟩ := coherent.getElem?_of_find? found
      rw [Option.map_some, if_neg different]

theorem changes_foldl_updateOne (resets : ∀ a, Variable.Resets fun v => change v a)
    {values : List (String × α)} (nodup : (values.map Prod.fst).Nodup)
    (coherent : u.program.Coherent) :
    (values.foldl (fun u entry => updateOne change u entry.1 entry.2) u).changes =
      u.changes ++ values.filterMap (changeOf? change u.program) := by
  induction values generalizing u with
  | nil => exact (List.append_nil _).symm
  | cons entry rest ih =>
      obtain ⟨name, a⟩ := entry
      rw [List.map_cons, List.nodup_cons] at nodup
      have next : (updateOne change u name a).program.Coherent := by
        rw [updateOne_eq_revise resets coherent]
        exact coherent_revise coherent (resets_ite (resets a))
      have same : ∀ entry ∈ rest,
          changeOf? change (updateOne change u name a).program entry =
            changeOf? change u.program entry := by
        intro entry there
        have different : entry.1 ≠ name := fun is =>
          nodup.1 (List.mem_map.2 ⟨entry, there, is⟩)
        rw [changeOf?, changeOf?, find?_updateOne resets coherent different]
      rw [List.foldl_cons, ih nodup.2 next, changes_updateOne resets coherent,
        List.filterMap_congr same, List.append_assoc]
      congr 1
      cases told : changeOf? change u.program (name, a) with
      | none => rw [List.filterMap_cons_none told]; rfl
      | some c => rw [List.filterMap_cons_some told]; rfl

/-- **What an update tells is settled by the program before it.** -/
theorem changes_updateEach (resets : ∀ a, Variable.Resets fun v => change v a)
    (coherent : p.Coherent) (values : Table String α) :
    (updateEach change p values).changes = values.entries.filterMap (changeOf? change p) :=
  changes_foldl_updateOne resets (u := { program := p }) values.nodup coherent

/-! ### Exact changes -/

/-- The changes are the words that are not as before, each once and in the order of the
names, and the image is as long as before. -/
structure ExactChanges (before : Program) (names : List String) (u : Updated) : Prop where
  length_eq : u.program.data.length = before.data.length
  mem_iff : ∀ (slot : Nat) (word : UInt64), (slot, word) ∈ u.changes ↔
    u.program.data[slot]? = some word ∧ before.data[slot]? ≠ some word
  once : (u.changes.map Prod.fst).Nodup
  ordered : (u.changes.map Prod.fst).Sublist (names.filterMap before.slotOf?)

/-- No two names have the same slot. -/
theorem Coherent.nodup_slots (coherent : p.Coherent) {names : List String} (nodup : names.Nodup) :
    (names.filterMap p.slotOf?).Nodup := by
  refine nodup.filterMap fun name other slot one two => ?_
  obtain ⟨v, found, rfl⟩ := Option.map_eq_some_iff.1 one
  obtain ⟨w, found', same⟩ := Option.map_eq_some_iff.1 two
  have place := (coherent.getElem?_of_find? found).1
  rw [← same, (coherent.getElem?_of_find? found').1] at place
  exact (Prod.mk.inj (Option.some.inj place)).1.symm

theorem slots_changes_sublist (change : Variable → α → Variable) (p : Program)
    (values : List (String × α)) :
    ((values.filterMap (changeOf? change p)).map Prod.fst).Sublist
      ((values.map Prod.fst).filterMap p.slotOf?) := by
  induction values with
  | nil => exact .slnil
  | cons entry rest ih =>
      rw [List.map_cons, List.filterMap_cons, List.filterMap_cons, changeOf?, slotOf?]
      cases p.find? entry.1 with
      | none => exact ih
      | some v =>
          rw [Option.bind_some, Option.map_some]
          by_cases same : (change v entry.2).word = v.word
          · rw [if_pos same]
            exact ih.cons _
          · rw [if_neg same]
            exact ih.cons_cons _

/-- A change is told of the variable in its slot, by the value of its name. -/
theorem mem_changes_iff (coherent : p.Coherent) {values : List (String × α)} {slot : Nat}
    {word : UInt64} :
    (slot, word) ∈ values.filterMap (changeOf? change p) ↔
      ∃ name v a, p.vars.entries[slot]? = some (name, v) ∧ (name, a) ∈ values ∧
        (change v a).word = word ∧ v.word ≠ word := by
  rw [List.mem_filterMap]
  constructor
  · rintro ⟨⟨name, a⟩, there, told⟩
    obtain ⟨v, found, told⟩ := Option.bind_eq_some_iff.1 told
    split at told
    · cases told
    · rename_i differs
      obtain ⟨rfl, rfl⟩ := Prod.mk.inj (Option.some.inj told)
      exact ⟨name, v, a, (coherent.getElem?_of_find? found).1, there, rfl, Ne.symm differs⟩
  · rintro ⟨name, v, a, place, there, rfl, differs⟩
    have found : p.find? name = some v := Table.get?_eq_some_iff.2 (List.mem_of_getElem? place)
    refine ⟨(name, a), there, ?_⟩
    rw [changeOf?, found, Option.bind_some, if_neg (Ne.symm differs),
      (coherent.placed slot _ place).slot_eq]

/-- **The changes of an update are exact.** -/
theorem exactChanges_updateEach (resets : ∀ a, Variable.Resets fun v => change v a)
    (coherent : p.Coherent) (values : Table String α) :
    ExactChanges p values.keys (updateEach change p values) := by
  have revises := revises_updateEach resets values
  have after := revises.coherent coherent
  have program := revises.program p coherent
  have told := changes_updateEach resets coherent values
  have ordered : ((updateEach change p values).changes.map Prod.fst).Sublist
      (values.keys.filterMap p.slotOf?) := told ▸ slots_changes_sublist change p values.entries
  refine ⟨?_, fun slot word => ?_, (coherent.nodup_slots values.nodup).sublist ordered, ordered⟩
  · rw [program, revise, coherent.data, List.length_map, List.length_map]
  · rw [told, mem_changes_iff coherent, after.getElem?_data, program, coherent.getElem?_data,
      revise, Table.map, List.getElem?_map]
    cases place : p.vars.entries[slot]? with
    | none => simp
    | some entry =>
        obtain ⟨name, v⟩ := entry
        have named : v.name = name := coherent.name_eq (List.mem_of_getElem? place)
        simp only [Option.map_some, ne_eq, Option.some.injEq, changed, named]
        constructor
        · rintro ⟨_, _, a, same, there, rfl, differs⟩
          obtain ⟨rfl, rfl⟩ := Prod.mk.inj same
          rw [(Table.lookup_eq_some_iff values.nodup).2 there]
          exact ⟨rfl, differs⟩
        · rintro ⟨rfl, differs⟩
          cases given : values.entries.lookup name with
          | none => exact absurd (by rw [given]; rfl) differs
          | some a =>
              rw [given] at differs
              exact ⟨name, v, a, rfl, (Table.lookup_eq_some_iff values.nodup).1 given, rfl, differs⟩

/-- **The same values again change nothing.** -/
theorem changes_again (resets : ∀ a, Variable.Resets fun v => change v a)
    (again : ∀ v a, change (change v a) a = change v a) (coherent : p.Coherent)
    (values : Table String α) :
    (updateEach change (updateEach change p values).program values).changes = [] := by
  have revises := revises_updateEach resets values
  rw [changes_updateEach resets (revises.coherent coherent), revises.program p coherent,
    List.filterMap_eq_nil_iff]
  rintro ⟨name, a⟩ there
  rw [changeOf?, find?_revise]
  cases found : p.find? name with
  | none => rfl
  | some v =>
      obtain ⟨_, rfl⟩ := coherent.getElem?_of_find? found
      have given : changed change values.entries v = change v a := by
        rw [changed, (Table.lookup_eq_some_iff values.nodup).2 there, Option.elim_some]
      rw [Option.map_some, Option.bind_some, given, again, if_pos rfl]

end Changes

/-- **The image after all operations.**  Every variable stands in its slot and the image
shows its word there.  Whatever values or masks come next, the changes that are told are
exact, and there are none if the same come again. -/
theorem image_of_operations (limits : MemoryLimits) (operations : List Operation) :
    let p := operations.foldl perform (withLimits limits)
    p.data.length = p.vars.size ∧
      (∀ (i : Nat) (name : String) (v : Variable), p.vars.entries[i]? = some (name, v) →
        v.name = name ∧ v.slot = i ∧ v.address = 8 * i ∧
          ∃ word, p.data[i]? = some word ∧ v.Shows word) ∧
      (∀ values : Table String Quantity,
        ExactChanges p values.keys (p.updateVariables values) ∧
          ((p.updateVariables values).program.updateVariables values).changes = []) ∧
      ∀ masks : Table String UInt64,
        ExactChanges p masks.keys (p.updateMasks masks) ∧
          ((p.updateMasks masks).program.updateMasks masks).changes = [] := by
  intro p
  have coherent : p.Coherent := coherent_foldl_perform (coherent_withLimits limits) operations
  refine ⟨?_, fun i name v place => ?_, fun values => ⟨?_, ?_⟩, fun masks => ⟨?_, ?_⟩⟩
  · rw [coherent.data, List.length_map, Table.values, List.length_map, Table.size]
  · have placed := coherent.placed i _ place
    refine ⟨placed.name_eq, placed.slot_eq, placed.address_eq, v.word, ?_, v.shows_word⟩
    rw [coherent.getElem?_data, place, Option.map_some]
  · exact exactChanges_updateEach resets_withValue coherent values
  · exact changes_again resets_withValue (fun _ _ => rfl) coherent values
  · exact exactChanges_updateEach resets_withMask coherent masks
  · exact changes_again resets_withMask (fun _ _ => rfl) coherent masks

end Program

end PulseSequencer
