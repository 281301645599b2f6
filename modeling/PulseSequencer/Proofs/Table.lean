import PulseSequencer.Table

/-
# PulseSequencer.Proofs.Table -- entries of a table one by one

A table reads the entries it holds (`get?_eq_some_iff`).  A new key adds an entry at the
end (`entries_insert_of_not_mem`), and a key that is there keeps its place
(`entries_insert_of_getElem?`).
-/

namespace PulseSequencer

set_option autoImplicit false

theorem getElem?_append_singleton {α : Type} {xs : List α} {x y : α} {k : Nat}
    (found : (xs ++ [x])[k]? = some y) : xs[k]? = some y ∨ k = xs.length ∧ x = y := by
  rcases Nat.lt_trichotomy k xs.length with below | rfl | above
  · rw [List.getElem?_append_left below] at found
    exact .inl found
  · simp at found
    exact .inr ⟨rfl, found⟩
  · rw [List.getElem?_eq_none (by simp; omega)] at found
    cases found

theorem findSome?_cons_eq_or {α β : Type} (f : α → Option β) (x : α) (rest : List α) :
    (x :: rest).findSome? f = (f x).or (rest.findSome? f) := by
  rw [List.findSome?_cons]
  cases f x <;> rfl

namespace Table

variable {κ α β : Type} {t : Table κ α} {key : κ} {value : α}

theorem ext_entries {s : Table κ α} (same : t.entries = s.entries) : t = s := by
  cases t
  cases s
  cases same
  rfl

theorem map_map {γ : Type} (f : κ → α → β) (g : κ → β → γ) :
    (t.map f).map g = t.map fun key value => g key (f key value) :=
  ext_entries (List.map_map ..)

theorem map_congr {f g : κ → α → β}
    (same : ∀ key value, (key, value) ∈ t.entries → f key value = g key value) :
    t.map f = t.map g :=
  ext_entries (List.map_congr_left fun entry there =>
    congrArg (Prod.mk entry.1) (same entry.1 entry.2 there))

theorem map_value (t : Table κ α) : (t.map fun _ value => value) = t :=
  ext_entries (List.map_id _)

variable [DecidableEq κ]

theorem lookup_eq_some_iff {es : List (κ × α)} (nodup : (es.map Prod.fst).Nodup) :
    es.lookup key = some value ↔ (key, value) ∈ es := by
  induction es with
  | nil => simp
  | cons entry rest ih =>
      obtain ⟨k, v⟩ := entry
      rw [List.map_cons, List.nodup_cons] at nodup
      rw [List.lookup_cons, List.mem_cons, ← ih nodup.2]
      by_cases here : key = k
      · subst here
        have absent : rest.lookup key ≠ some value := fun found =>
          nodup.1 (List.mem_map.2 ⟨(key, value), (ih nodup.2).1 found, rfl⟩)
        simp [absent, eq_comm]
      · simp [here, beq_eq_false_iff_ne.2 here]

theorem lookup_of_not_mem {es : List (κ × α)} (absent : key ∉ es.map Prod.fst) :
    es.lookup key = none :=
  List.lookup_eq_none_iff.2 fun entry there =>
    bne_iff_ne.2 fun same => absent (List.mem_map.2 ⟨entry, there, same.symm⟩)

theorem get?_eq_some_iff : t.get? key = some value ↔ (key, value) ∈ t.entries :=
  lookup_eq_some_iff t.nodup

theorem mem_keys_iff : key ∈ t.keys ↔ ∃ value, t.get? key = some value := by
  simp only [keys, List.mem_map, Prod.exists, exists_and_right, exists_eq_right,
    get?_eq_some_iff]

theorem contains_eq_false_iff : t.contains key = false ↔ key ∉ t.keys := by
  rw [contains, Option.isSome_eq_false_iff, Option.isNone_iff_eq_none, mem_keys_iff, not_exists,
    Option.eq_none_iff_forall_ne_some]

theorem put_of_not_mem {es : List (κ × α)} (absent : key ∉ es.map Prod.fst) :
    put key value es = es ++ [(key, value)] := by
  induction es with
  | nil => rfl
  | cons entry rest ih =>
      obtain ⟨k, v⟩ := entry
      simp only [List.map_cons, List.mem_cons, not_or] at absent
      rw [put, if_neg (Ne.symm absent.1), ih absent.2, List.cons_append]

theorem entries_insert_of_not_mem (absent : key ∉ t.keys) :
    (t.insert key value).entries = t.entries ++ [(key, value)] :=
  put_of_not_mem absent

/-- A key that was not there makes a table longer by one. -/
theorem size_insert_of_get? (absent : t.get? key = none) :
    (t.insert key value).size = t.size + 1 := by
  have new : key ∉ t.keys := contains_eq_false_iff.1 (by rw [contains, absent]; rfl)
  rw [size, entries_insert_of_not_mem new, List.length_append, size, List.length_singleton]

theorem put_of_getElem? {es : List (κ × α)} {old : α} {i : Nat}
    (nodup : (es.map Prod.fst).Nodup) (found : es[i]? = some (key, old)) :
    put key value es = es.set i (key, value) := by
  induction es generalizing i with
  | nil => cases found
  | cons entry rest ih =>
      obtain ⟨k, v⟩ := entry
      rw [List.map_cons, List.nodup_cons] at nodup
      cases i with
      | zero =>
          obtain ⟨rfl, rfl⟩ := Prod.mk.inj (Option.some.inj found)
          rw [put, if_pos rfl, List.set_cons_zero]
      | succ i =>
          rw [List.getElem?_cons_succ] at found
          have differs : k ≠ key := by
            rintro rfl
            exact nodup.1 (List.mem_map.2 ⟨_, List.mem_of_getElem? found, rfl⟩)
          rw [put, if_neg differs, ih nodup.2 found, List.set_cons_succ]

theorem entries_insert_of_getElem? {old : α} {i : Nat} (found : t.entries[i]? = some (key, old)) :
    (t.insert key value).entries = t.entries.set i (key, value) :=
  put_of_getElem? t.nodup found

@[simp] theorem get?_map (f : κ → α → β) : (t.map f).get? key = (t.get? key).map (f key) := by
  obtain ⟨es, nodup⟩ := t
  show (es.map fun entry => (entry.1, f entry.1 entry.2)).lookup key =
    (es.lookup key).map (f key)
  clear nodup
  induction es with
  | nil => rfl
  | cons entry rest ih =>
      rw [List.map_cons, List.lookup_cons, List.lookup_cons]
      by_cases here : key = entry.1
      · simp [here]
      · simp only [beq_eq_false_iff_ne.2 here, ih]

@[simp] theorem get?_filter (p : κ → α → Bool) :
    (t.filter p).get? key = (t.get? key).filter (p key) := by
  refine Option.ext fun value => ?_
  rw [get?_eq_some_iff, Option.filter_eq_some_iff, get?_eq_some_iff, filter, List.mem_filter]

theorem get?_insertAll {es : List (κ × α)} (nodup : (es.map Prod.fst).Nodup) :
    (t.insertAll es).get? key = (es.lookup key).or (t.get? key) := by
  induction es generalizing t with
  | nil => rfl
  | cons entry rest ih =>
      obtain ⟨k, v⟩ := entry
      rw [List.map_cons, List.nodup_cons] at nodup
      have onward := ih (t := t.insert k v) nodup.2
      rw [insertAll] at onward ⊢
      rw [List.foldl_cons, onward, get?_insert, List.lookup_cons]
      by_cases here : key = k
      · subst here
        simp [lookup_of_not_mem nodup.1]
      · simp [here, beq_eq_false_iff_ne.2 here]

@[simp] theorem get?_insertAll_entries (s : Table κ α) :
    (t.insertAll s.entries).get? key = (s.get? key).or (t.get? key) :=
  get?_insertAll s.nodup

end Table

end PulseSequencer
