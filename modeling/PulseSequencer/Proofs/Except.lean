/-
# PulseSequencer.Proofs.Except -- steps of a computation that succeeds or fails
-/

namespace PulseSequencer

set_option autoImplicit false

/-- A sequence succeeds exactly if both of its steps do. -/
theorem bind_eq_ok {ε α β : Type} {first : Except ε α} {next : α → Except ε β} {result : β} :
    (first >>= next) = .ok result ↔ ∃ value, first = .ok value ∧ next value = .ok result := by
  cases first with
  | ok value =>
      refine ⟨fun ran => ⟨value, rfl, ran⟩, ?_⟩
      rintro ⟨_, ⟨⟩, ran⟩
      exact ran
  | error e =>
      refine ⟨fun ran => ?_, ?_⟩
      · cases ran
      · rintro ⟨_, ⟨⟩, _⟩

/-- A sequence fails exactly if one of its steps does. -/
theorem bind_eq_error {ε α β : Type} {first : Except ε α} {next : α → Except ε β} {e : ε} :
    (first >>= next) = .error e ↔
      first = .error e ∨ ∃ value, first = .ok value ∧ next value = .error e := by
  cases first <;> simp [bind, Except.bind]

theorem ok_of_toOption {ε α : Type} {computed : Except ε α} {result : α}
    (found : computed.toOption = some result) : computed = .ok result := by
  cases computed with
  | ok value => exact congrArg Except.ok (Option.some.inj found)
  | error e => cases found

theorem ok_of_mapError {ε δ α : Type} {first : Except ε α} {f : ε → δ} {result : α}
    (ran : first.mapError f = .ok result) : first = .ok result := by
  cases first with
  | ok value => exact congrArg Except.ok (Except.ok.inj ran)
  | error e => cases ran

/-- What a list has at a place where all of its steps succeed. -/
theorem getElem?_of_mapM {α β ε : Type} {f : α → Except ε β} {xs : List α} {ys : List β}
    (mapped : xs.mapM f = .ok ys) {k : Nat} {x : α} (found : xs[k]? = some x) :
    ∃ y, f x = .ok y ∧ ys[k]? = some y := by
  induction xs generalizing ys k with
  | nil => cases found
  | cons head rest ih =>
      rw [List.mapM_cons] at mapped
      obtain ⟨y, first, mapped⟩ := bind_eq_ok.1 mapped
      obtain ⟨others, onward, mapped⟩ := bind_eq_ok.1 mapped
      obtain rfl := Except.ok.inj mapped
      cases k with
      | zero =>
          obtain rfl := Option.some.inj found
          exact ⟨y, first, rfl⟩
      | succ k => exact ih onward found

theorem length_of_mapM {α β ε : Type} {f : α → Except ε β} {xs : List α} {ys : List β}
    (mapped : xs.mapM f = .ok ys) : ys.length = xs.length := by
  induction xs generalizing ys with
  | nil =>
      obtain rfl := Except.ok.inj mapped
      rfl
  | cons head rest ih =>
      rw [List.mapM_cons] at mapped
      obtain ⟨y, _, mapped⟩ := bind_eq_ok.1 mapped
      obtain ⟨others, onward, mapped⟩ := bind_eq_ok.1 mapped
      obtain rfl := Except.ok.inj mapped
      rw [List.length_cons, List.length_cons, ih onward]

/-- Where a result comes from. -/
theorem getElem?_of_result {α β ε : Type} {f : α → Except ε β} {xs : List α} {ys : List β}
    (mapped : xs.mapM f = .ok ys) {k : Nat} {y : β} (found : ys[k]? = some y) :
    ∃ x, xs[k]? = some x ∧ f x = .ok y := by
  obtain ⟨inside, _⟩ := List.getElem?_eq_some_iff.1 found
  have there := List.getElem?_eq_getElem (length_of_mapM mapped ▸ inside)
  obtain ⟨_, made, same⟩ := getElem?_of_mapM mapped there
  obtain rfl := Option.some.inj (same.symm.trans found)
  exact ⟨_, there, made⟩

/-- Steps that all succeed succeed in a row. -/
theorem exists_mapM {α β ε : Type} {f : α → Except ε β} {xs : List α}
    (each : ∀ x ∈ xs, ∃ y, f x = .ok y) : ∃ ys, xs.mapM f = .ok ys := by
  induction xs with
  | nil => exact ⟨[], rfl⟩
  | cons head rest ih =>
      obtain ⟨here, others⟩ := List.forall_mem_cons.1 each
      obtain ⟨y, first⟩ := here
      obtain ⟨ys, onward⟩ := ih others
      exact ⟨y :: ys, by
        rw [List.mapM_cons]
        exact bind_eq_ok.2 ⟨y, first, bind_eq_ok.2 ⟨ys, onward, rfl⟩⟩⟩

end PulseSequencer
