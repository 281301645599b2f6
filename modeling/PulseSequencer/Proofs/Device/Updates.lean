import PulseSequencer.Proofs.Device.Merge

/-
# PulseSequencer.Proofs.Device.Updates -- updates of a merged program

An update writes values straight into the program and keeps them as overrides, where an
image starts from the declarations and merges all sources again.  Behind an image
without one-off overrides every variable is as the merge leaves it (`Settled`), whether
it has a mask, is switched off, or has a value without an encoding.  An update keeps
that (`Settled.update`), so the next image has nothing to change (`Settled.images_eq`).

Main statement: `images_of_updates`.
-/

namespace PulseSequencer.Controller

open Program (changed withValue)

set_option autoImplicit false

/-! ## The controllers that there are -/

/-- Controllers after all that can happen to one.  A source that is loaded may insert
others from a library. -/
inductive Reached : Controller → Prop
  | withLimits (limits : MemoryLimits) : Reached (.withLimits limits)
  | perform {c : Controller} (reached : Reached c) (operation : Operation) :
      Reached (c.perform operation)
  | install {c : Controller} (reached : Reached c) {name text : String} {library : Library}
      {p : Program} {notices : List Notice}
      (loaded : (Program.withLimits c.program.limits).load name text library = .ok (p, notices)) :
      Reached (c.install p).1

section

variable {c : Controller} {m : Merge} {v : Variable}

theorem Reached.tracks (reached : Reached c) : ∃ m, Tracks c m := by
  induction reached with
  | withLimits limits => exact ⟨_, tracks_withLimits limits⟩
  | perform _ operation ih =>
      obtain ⟨m, tracks⟩ := ih
      exact ⟨_, tracks.perform operation⟩
  | install _ loaded ih =>
      obtain ⟨m, tracks⟩ := ih
      obtain ⟨limits, coherent, declared⟩ := declared_of_load loaded
      exact ⟨_, tracks.install (limits.trans tracks.limits) coherent declared⟩

/-! ## Settled variables -/

/-- A declared variable as an image without one-off overrides leaves it. -/
def Merge.settled (m : Merge) (v : Variable) : Variable :=
  ((m.source Table.empty v).give v).switched (!m.disables v.name)

theorem Merge.resets_settled (m : Merge) : Variable.Resets m.settled := by
  intro v
  rw [settled]
  cases m.source Table.empty v <;> rfl

/-- Every variable is as an image without one-off overrides leaves it. -/
structure Settled (c : Controller) (m : Merge) : Prop extends Tracks c m where
  vars : c.program.vars = m.declared.map fun _ v => m.settled v

/-- A source and a switch leave nothing of an earlier value, mask or switch. -/
theorem Source.give_switched {f : Variable → Variable} (resets : Variable.Resets f) (v : Variable)
    (source : Source) (on : Bool) :
    (source.give (f v)).switched on = (source.give v).switched on := by
  rw [resets v]
  cases source <;> rfl

theorem Tracks.merged_eq_settled (tracks : Tracks c m) {f : Variable → Variable}
    (resets : Variable.Resets f) (found : m.declared.get? v.name = some v) :
    c.merged Table.empty (f v) = m.settled v := by
  rw [tracks.merged_eq Table.empty resets found, Source.give_switched resets, Merge.settled]

theorem Tracks.vars_revise (tracks : Tracks c m) {f g h : Variable → Variable}
    (vars : c.program.vars = m.declared.map fun _ v => f v)
    (each : ∀ v, m.declared.get? v.name = some v → g (f v) = h v) :
    (c.program.revise g).vars = m.declared.map fun _ v => h v := by
  rw [Program.revise, vars]
  refine (Table.map_map (fun _ v => f v) fun _ v => g v).trans
    (Table.map_congr fun name v there => ?_)
  have found := Table.get?_eq_some_iff.2 there
  exact each v (tracks.name_eq found ▸ found)

/-- **An image settles every variable.** -/
theorem Tracks.settled_images (tracks : Tracks c m) : Settled (c.images Table.empty).1 m := by
  obtain ⟨program, _⟩ := program_images tracks.coherent Table.empty
  obtain ⟨f, resets, cells⟩ := tracks.cells
  refine ⟨tracks.images Table.empty, ?_⟩
  rw [program]
  exact tracks.vars_revise cells fun v found => tracks.merged_eq_settled resets found

/-- An update is a new source of the variables that it names. -/
theorem Merge.source_update (values : Table String Quantity)
    (found : m.declared.get? v.name = some v) :
    (m.perform (.update values)).source Table.empty v =
      ((values.get? v.name).map .value).getD (m.source Table.empty v) := by
  rw [perform, source, source]
  simp only [Table.contains, found, Option.isSome_some, if_true]
  cases values.get? v.name <;> rfl

/-- **An update keeps variables settled.** -/
theorem Settled.update (settled : Settled c m) (values : Table String Quantity) :
    Settled (c.updateVariables values).1 (m.perform (.update values)) := by
  have program := (Program.revises_updateVariables values).program c.program settled.coherent
  refine ⟨settled.toTracks.update values, ?_⟩
  show (c.program.updateVariables values).program.vars = _
  rw [program]
  refine settled.vars_revise settled.vars fun v found => ?_
  have named : (m.settled v).name = v.name := m.resets_settled.name_eq v
  rw [changed_withValue, named, Merge.settled, Merge.settled, Merge.source_update values found]
  cases values.get? v.name with
  | none => rfl
  | some q => cases m.source Table.empty v <;> rfl

/-- **An image of settled variables changes nothing.** -/
theorem Settled.images_eq (settled : Settled c m) : (c.images Table.empty).1 = c := by
  have same : c.program.revise (c.merged Table.empty) = c.program := by
    rw [Program.revise_congr (g := fun v => v), Program.revise_self settled.coherent]
    intro name u there
    rw [settled.vars, Table.map, List.mem_map] at there
    obtain ⟨entry, declared, same⟩ := there
    obtain ⟨rfl, rfl⟩ := Prod.mk.inj same
    have found := Table.get?_eq_some_iff.2 declared
    exact settled.merged_eq_settled m.resets_settled (settled.name_eq found ▸ found)
  have image : (c.images Table.empty).1 =
      { c with program := (c.images Table.empty).1.program } := rfl
  rw [image, (program_images settled.coherent Table.empty).1, same]

/-! ## Updates one after the other -/

/-- The controller after updates. -/
def updateAll (c : Controller) (updates : List (Table String Quantity)) : Controller :=
  updates.foldl (fun c values => (c.updateVariables values).1) c

/-- The value that was given to a name last. -/
def lastGiven? (updates : List (Table String Quantity)) (name : String) : Option Quantity :=
  updates.reverse.findSome? fun values => values.get? name

theorem Settled.updateAll (settled : Settled c m) (updates : List (Table String Quantity)) :
    ∃ m', Settled (c.updateAll updates) m' := by
  induction updates generalizing c m with
  | nil => exact ⟨m, settled⟩
  | cons values rest ih => exact ih (settled.update values)

theorem find?_updateAll (coherent : c.program.Coherent) (updates : List (Table String Quantity))
    (name : String) :
    (c.updateAll updates).program.find? name =
      (c.program.find? name).map fun v => (lastGiven? updates name).elim v (withValue v) := by
  induction updates generalizing c with
  | nil => exact (congrFun Option.map_id _).symm
  | cons values rest ih =>
      have revises := Program.revises_updateVariables values
      have program : (c.updateVariables values).1.program =
          c.program.revise (changed withValue values.entries) :=
        revises.program c.program coherent
      have next : (c.updateVariables values).1.program.Coherent := revises.coherent coherent
      have last : lastGiven? (values :: rest) name =
          (lastGiven? rest name).or (values.get? name) := by
        rw [lastGiven?, List.reverse_cons, List.findSome?_append, ← lastGiven?]
        simp
      rw [updateAll, List.foldl_cons, ← updateAll, ih next, program, Program.find?_revise,
        Option.map_map, last]
      cases found : c.program.find? name with
      | none => rfl
      | some v =>
          obtain ⟨_, rfl⟩ := coherent.getElem?_of_find? found
          rw [Option.map_some, Option.map_some, Function.comp_apply, changed, ← Table.get?]
          cases lastGiven? rest v.name <;> cases values.get? v.name <;> rfl

end

/-- **Updates agree with images.**  Behind an image without one-off overrides, whatever
values updates give, another such image finds every word of the program as it has to be
and leaves the controller as it is.  Every variable has the value that was given last. -/
theorem images_of_updates {c : Controller} (reached : Reached c)
    (updates : List (Table String Quantity)) :
    let merged := (c.images Table.empty).1
    let updated := merged.updateAll updates
    (updated.images Table.empty).2.1.data = bytesOfWords updated.program.data ∧
      (updated.images Table.empty).1 = updated ∧
      ∀ name, updated.program.find? name =
        (merged.program.find? name).map fun v =>
          (lastGiven? updates name).elim v (withValue v) := by
  intro merged updated
  obtain ⟨m, tracks⟩ := reached.tracks
  have settled : Settled merged m := tracks.settled_images
  obtain ⟨m', updatedSettled⟩ := settled.updateAll updates
  have same : (updated.images Table.empty).1 = updated := updatedSettled.images_eq
  have words : (updated.images Table.empty).2.1.data =
      bytesOfWords (updated.images Table.empty).1.program.data := rfl
  exact ⟨words.trans (by rw [same]), same, find?_updateAll settled.coherent updates⟩

/-- A program with a mask and with a value that the context switches off. -/
def switchedOff : Controller :=
  ((withLimits {}).perform
    (.load "main.pp" "var a 1\nvar open 3, masked_shutter\nLDWR a\nEND")).perform
      (.setContext (some
        { values := Table.ofList [("a", .plain 5)]
          disabled := ["a"]
          shutters := Table.ofList [("open", 6)] }))

theorem images_of_updates_switchedOff :
    let updates := [Table.ofList [("open", .plain 7), ("none", .plain 1)],
      Table.ofList [("a", .plain 8)]]
    let merged := (switchedOff.images Table.empty).1
    let updated := merged.updateAll updates
    Reached switchedOff ∧ merged.program.data = [0, 6] ∧ updated.program.data = [0, 7] ∧
      (updated.images Table.empty).2.1.data = bytesOfWords updated.program.data ∧
      (updated.images Table.empty).1 = updated ∧
      ∀ name, updated.program.find? name =
        (merged.program.find? name).map fun v =>
          (lastGiven? updates name).elim v (withValue v) :=
  have reached : Reached switchedOff := .perform (.perform (.withLimits {}) _) _
  ⟨reached, by decide +kernel, by decide +kernel, images_of_updates reached _⟩

end PulseSequencer.Controller
