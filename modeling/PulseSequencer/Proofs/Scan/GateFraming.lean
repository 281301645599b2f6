import PulseSequencer.Proofs.Program.UpdateFraming
import PulseSequencer.Proofs.Scan.Alignment

/-
# PulseSequencer.Proofs.Scan.GateFraming -- gates are read back from the stream

Behind an update stand the number of its gates and the gates, which may be any words.  The number
alone tells where the next update begins, so a reader that goes by it (`GatedUpdate.readAll`)
takes the groups apart again, whatever their words are (`readAll_append`).  Which gates a
step has does not depend on the words either (`GateSequences.ofSteps`).

Main statement: `GateSequences.readAll_of_interleave`.
-/

namespace PulseSequencer

set_option autoImplicit false

/-- An update with the gates that go with it. -/
structure GatedUpdate where
  address : UInt64
  value : UInt64
  gates : List UInt64
deriving Repr, DecidableEq

namespace GatedUpdate

/-- The update as it stands in a stream. -/
def words (u : GatedUpdate) : List UInt64 :=
  u.address :: u.value :: GateSequences.framed u.gates

/-- Reads updates with their gates up to the end of the words; none, if one is cut off. -/
def readAll (stream : List UInt64) : Option (List GatedUpdate) :=
  match stream with
  | [] => some []
  | address :: value :: count :: rest =>
      if count.toNat ≤ rest.length then
        (readAll (rest.drop count.toNat)).map (⟨address, value, rest.take count.toNat⟩ :: ·)
      else none
  | _ => none
termination_by stream.length
decreasing_by simp only [List.length_drop, List.length_cons]; omega

/-- A word can tell the number of the gates. -/
def Counted (u : GatedUpdate) : Prop := u.gates.length < 2 ^ 64

theorem readAll_words_append {u : GatedUpdate} (counted : u.Counted) (rest : List UInt64) :
    readAll (u.words ++ rest) = (readAll rest).map (u :: ·) := by
  have count : (UInt64.ofNat u.gates.length).toNat = u.gates.length :=
    UInt64.toNat_ofNat_of_lt' counted
  have inside : u.gates.length ≤ (u.gates ++ rest).length := by
    rw [List.length_append]
    exact Nat.le_add_right _ _
  show readAll (u.address :: u.value :: UInt64.ofNat u.gates.length :: (u.gates ++ rest)) = _
  rw [readAll, count, if_pos inside, List.drop_left, List.take_left]

/-- **Groups are read back**, and then what is behind them. -/
theorem readAll_append {groups : List GatedUpdate} (counted : ∀ u ∈ groups, u.Counted)
    (rest : List UInt64) :
    readAll (groups.flatMap words ++ rest) = (readAll rest).map (groups ++ ·) := by
  induction groups with
  | nil => simp
  | cons u others ih =>
      obtain ⟨here, there⟩ := List.forall_mem_cons.1 counted
      rw [List.flatMap_cons, List.append_assoc, readAll_words_append here, ih there,
        Option.map_map]
      rfl

theorem readAll_flatMap_words {groups : List GatedUpdate} (counted : ∀ u ∈ groups, u.Counted) :
    readAll (groups.flatMap words) = some groups := by
  have read := readAll_append counted []
  rw [readAll, Option.map_some, List.append_nil, List.append_nil] at read
  exact read

end GatedUpdate

namespace GateSequences

open Program (wordsOfPairs)

/-- The sequences of so many steps: the only one for all of them, or one for each. -/
def ofSteps (g : GateSequences) (count : Nat) : List (List UInt64) :=
  match g.sequences with
  | [only] => List.replicate count only
  | each => each

/-- Updates with the sequences of their steps. -/
def gated (g : GateSequences) (updates : List (UInt64 × UInt64)) : List GatedUpdate :=
  List.zipWith (fun u gates => ⟨u.1, u.2, gates⟩) updates (g.ofSteps updates.length)

/-- There is one sequence, or one for each of so many steps. -/
def Suits (g : GateSequences) (count : Nat) : Prop :=
  g.sequences.length = 1 ∨ g.sequences.length = count

variable {g : GateSequences} {count : Nat} {updates : List (UInt64 × UInt64)}

theorem length_ofSteps (suits : g.Suits count) : (g.ofSteps count).length = count := by
  unfold ofSteps
  split
  · exact List.length_replicate
  · rename_i several
    rcases suits with one | each
    · obtain ⟨only, is⟩ := List.length_eq_one_iff.1 one
      exact absurd is (several only)
    · exact each

theorem mem_of_mem_ofSteps {sequence : List UInt64} (there : sequence ∈ g.ofSteps count) :
    sequence ∈ g.sequences := by
  unfold ofSteps at there
  split at there
  · rename_i only is
    rw [is, List.eq_of_mem_replicate there]
    exact List.mem_singleton_self only
  · exact there

theorem payload?_eq (g : GateSequences) {step : Nat} (inside : step < count) :
    g.payload? step = (g.ofSteps count)[step]?.map framed := by
  rcases is : g.sequences with _ | ⟨first, _ | ⟨second, others⟩⟩ <;>
    simp [payload?, ofSteps, is, inside]

theorem chunks_wordsOfPairs (updates : List (UInt64 × UInt64)) :
    chunks wordsPerUpdate (wordsOfPairs updates) = updates.map fun u => [u.1, u.2] := by
  have sized : ∀ group ∈ updates.map (fun u => [u.1, u.2]), group.length = 1 + 1 := by
    intro group there
    obtain ⟨u, _, rfl⟩ := List.mem_map.1 there
    rfl
  rw [wordsOfPairs, List.flatMap_def]
  exact chunks_flatten sized

/-- **What stands in the stream**: every update with the sequence of its step. -/
theorem words_gated (suits : g.Suits updates.length) :
    (updates.map fun u => [u.1, u.2]).zipIdx.map (fun (update, k) =>
      update ++ (g.payload? k).getD []) = (g.gated updates).map GatedUpdate.words := by
  refine List.ext_getElem? fun k => ?_
  rw [gated, List.getElem?_map, List.getElem?_map, List.getElem?_zipIdx, List.getElem?_map,
    List.getElem?_zipWith]
  cases found : updates[k]? with
  | none => rfl
  | some u =>
      have inside : k < updates.length := (List.getElem?_eq_some_iff.1 found).1
      have here : k < (g.ofSteps updates.length).length := by rwa [length_ofSteps suits]
      simp [payload?_eq g inside, List.getElem?_eq_getElem here, GatedUpdate.words]

/-- **Sequences are refused exactly if they are neither one nor as many as the steps.** -/
theorem interleave_eq (g : GateSequences) (updates : List (UInt64 × UInt64)) :
    (g.Suits updates.length → g.interleave (wordsOfPairs updates) wordsPerUpdate =
      .ok ((g.gated updates).map GatedUpdate.words)) ∧
    (¬g.Suits updates.length → g.interleave (wordsOfPairs updates) wordsPerUpdate =
      .error (.invalid (.gateCount g.sequences.length updates.length))) := by
  have refuses : (g.sequences.length ≠ 1 ∧ g.sequences.length ≠ updates.length) ↔
      ¬g.Suits updates.length := not_or.symm
  rw [interleave, chunks_wordsOfPairs]
  dsimp only
  rw [List.length_map]
  constructor
  · intro suits
    rw [if_neg fun mismatched => refuses.1 mismatched suits, words_gated suits]
  · intro mismatched
    rw [if_pos (refuses.2 mismatched)]

theorem interleave_eq_ok_iff {steps : List (List UInt64)} :
    g.interleave (wordsOfPairs updates) wordsPerUpdate = .ok steps ↔
      g.Suits updates.length ∧ steps = (g.gated updates).map GatedUpdate.words := by
  constructor
  · intro made
    by_cases suits : g.Suits updates.length
    · rw [(interleave_eq g updates).1 suits] at made
      exact ⟨suits, (Except.ok.inj made).symm⟩
    · rw [(interleave_eq g updates).2 suits] at made
      cases made
  · rintro ⟨suits, rfl⟩
    exact (interleave_eq g updates).1 suits

theorem getElem?_gated {k : Nat} {u : GatedUpdate} (found : (g.gated updates)[k]? = some u) :
    updates[k]? = some (u.address, u.value) ∧ (g.ofSteps updates.length)[k]? = some u.gates := by
  rw [gated, List.getElem?_zipWith] at found
  split at found
  · rename_i update gates there its
    obtain rfl := Option.some.inj found
    exact ⟨there, its⟩
  · cases found

theorem updates_gated (suits : g.Suits updates.length) :
    (g.gated updates).map (fun u => (u.address, u.value)) = updates := by
  have length : (g.gated updates).length = updates.length := by
    rw [gated, List.length_zipWith, length_ofSteps suits, Nat.min_self]
  refine List.ext_getElem? fun k => ?_
  rw [List.getElem?_map]
  cases found : (g.gated updates)[k]? with
  | none =>
      rw [List.getElem?_eq_none_iff, length] at found
      exact (List.getElem?_eq_none found).symm
  | some u => exact (getElem?_gated found).1.symm

theorem ofSteps_eq (several : g.sequences.length ≠ 1) : g.ofSteps count = g.sequences := by
  unfold ofSteps
  split
  · rename_i only is
    exact absurd (congrArg List.length is) several
  · rfl

/-- **Gates are read back from the stream.**  Updates are interleaved with gate sequences exactly
if there is one sequence, or one for each update.  Reading what then stands in the stream uses
up all of it, and gives the updates in their order: each with the sequence that is shared, or
with the one of its step.  The first steps alone give the first updates.  A sequence has no more
gates than a word can count, since it has to fit into memory. -/
theorem readAll_of_interleave (g : GateSequences) (updates : List (UInt64 × UInt64))
    (short : ∀ sequence ∈ g.sequences, sequence.length < 2 ^ 64) :
    ((∃ steps, g.interleave (wordsOfPairs updates) wordsPerUpdate = .ok steps) ↔
      g.sequences.length = 1 ∨ g.sequences.length = updates.length) ∧
    ∀ steps, g.interleave (wordsOfPairs updates) wordsPerUpdate = .ok steps →
      steps.length = updates.length ∧
      ∃ groups, GatedUpdate.readAll steps.flatten = some groups ∧
        groups.map (fun u => (u.address, u.value)) = updates ∧
        (∀ (k : Nat) (u : GatedUpdate), groups[k]? = some u →
          (∀ only, g.sequences = [only] → u.gates = only) ∧
          (g.sequences.length ≠ 1 → g.sequences[k]? = some u.gates)) ∧
        ∀ n, GatedUpdate.readAll (steps.take n).flatten = some (groups.take n) := by
  refine ⟨⟨fun ⟨steps, made⟩ => (interleave_eq_ok_iff.1 made).1,
    fun suits => ⟨_, interleave_eq_ok_iff.2 ⟨suits, rfl⟩⟩⟩, fun steps made => ?_⟩
  obtain ⟨suits, rfl⟩ := interleave_eq_ok_iff.1 made
  have counted : ∀ u ∈ g.gated updates, u.Counted := by
    intro u there
    obtain ⟨k, found⟩ := List.mem_iff_getElem?.1 there
    exact short _ (mem_of_mem_ofSteps (List.mem_of_getElem? (getElem?_gated found).2))
  have first : ∀ n, GatedUpdate.readAll (((g.gated updates).map GatedUpdate.words).take n).flatten =
      some ((g.gated updates).take n) := by
    intro n
    rw [← List.map_take, ← List.flatMap_def]
    exact GatedUpdate.readAll_flatMap_words fun u there => counted u (List.mem_of_mem_take there)
  refine ⟨?_, g.gated updates, ?_, updates_gated suits, fun k u found => ⟨fun only is => ?_,
    fun several => ?_⟩, first⟩
  · rw [← congrArg List.length (updates_gated suits), List.length_map, List.length_map]
  · rw [← List.flatMap_def]
    exact GatedUpdate.readAll_flatMap_words counted
  · have its := mem_of_mem_ofSteps (List.mem_of_getElem? (getElem?_gated found).2)
    rw [is] at its
    exact List.mem_singleton.1 its
  · rw [← ofSteps_eq several]
    exact (getElem?_gated found).2

/-- Three steps with sequences of their own, whose words look like the head of an update. -/
theorem readAll_of_interleave_lookalikes :
    let g : GateSequences := ⟨[[], [4, 10, 1], [7]]⟩
    let updates : List (UInt64 × UInt64) := [(4, 10), (4, 0), (0, 2)]
    (∀ sequence ∈ g.sequences, sequence.length < 2 ^ 64) ∧
    ∃ steps groups, g.interleave (wordsOfPairs updates) wordsPerUpdate = .ok steps ∧
      steps.flatten = [4, 10, 0, 4, 0, 3, 4, 10, 1, 0, 2, 1, 7] ∧
      GatedUpdate.readAll steps.flatten = some groups ∧
      groups.map (fun u => (u.address, u.value)) = updates := by
  intro g updates
  have short : ∀ sequence ∈ g.sequences, sequence.length < 2 ^ 64 := by decide
  obtain ⟨accepts, reads⟩ := readAll_of_interleave g updates short
  obtain ⟨steps, made⟩ := accepts.2 (.inr rfl)
  obtain ⟨_, groups, read, same, _⟩ := reads steps made
  exact ⟨short, steps, groups, made, congrArg List.flatten (interleave_eq_ok_iff.1 made).2, read,
    same⟩

end GateSequences

end PulseSequencer
