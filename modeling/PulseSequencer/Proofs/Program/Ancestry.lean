import PulseSequencer.Program.Context
import PulseSequencer.Proofs.Except
import PulseSequencer.Proofs.Table
import Mathlib.Data.List.Nodup
import Mathlib.Data.List.Perm.Subperm

/-
# PulseSequencer.Proofs.Program.Ancestry -- contexts under their parents

A context without a parent is its own ancestry, and a parent's ancestry goes on with the
parent's own: `Ancestry` says so without a bound on the length, and holds of no context
that is under itself.  Every context of a store that operations lead to has an ancestry
(`Reached.rooted`), for a parent is taken only if the child is not among the parent's
ancestors.  The chain that the store follows is that ancestry (`Rooted.chain_eq`).
-/

namespace PulseSequencer.ContextStore

set_option autoImplicit false

/-! ## Ancestries -/

/-- A context and its ancestors, nearest first. -/
inductive Ancestry (s : ContextStore) : String → List Context → Prop
  | root {name : String} {c : Context} (stored : s.get? name = some c) (top : c.parent = none) :
      Ancestry s name [c]
  | child {name parent : String} {c : Context} {older : List Context}
      (stored : s.get? name = some c) (under : c.parent = some parent)
      (above : Ancestry s parent older) : Ancestry s name (c :: older)

/-- Every context is stored under its name and has an ancestry. -/
structure Rooted (s : ContextStore) : Prop where
  named : ∀ name c, s.get? name = some c → c.name = name
  ancestry : ∀ name c, s.get? name = some c → ∃ chain, Ancestry s name chain

section

variable {s : ContextStore} {c : Context} {name : String} {chain : List Context}

theorem Ancestry.unique {other : List Context} (ancestry : Ancestry s name chain)
    (ancestry' : Ancestry s name other) : chain = other := by
  induction ancestry generalizing other with
  | root stored top =>
      cases ancestry' with
      | root stored' _ => rw [Option.some.inj (stored.symm.trans stored')]
      | child stored' under _ =>
          obtain rfl := Option.some.inj (stored.symm.trans stored')
          exact absurd (top.symm.trans under) (by simp)
  | child stored under _ ih =>
      cases ancestry' with
      | root stored' top =>
          obtain rfl := Option.some.inj (stored.symm.trans stored')
          exact absurd (top.symm.trans under) (by simp)
      | child stored' under' above =>
          obtain rfl := Option.some.inj (stored.symm.trans stored')
          obtain rfl := Option.some.inj (under.symm.trans under')
          rw [ih above]

/-- An ancestor is stored, and its ancestry is a part. -/
theorem Ancestry.of_mem (rooted : Rooted s) (ancestry : Ancestry s name chain)
    (there : c ∈ chain) :
    s.get? c.name = some c ∧
      ∃ older, Ancestry s c.name older ∧ older.length ≤ chain.length := by
  induction ancestry with
  | root stored top =>
      obtain rfl := List.mem_singleton.1 there
      obtain rfl := rooted.named _ _ stored
      exact ⟨stored, _, .root stored top, Nat.le_refl _⟩
  | child stored under above ih =>
      rcases List.mem_cons.1 there with rfl | there
      · obtain rfl := rooted.named _ _ stored
        exact ⟨stored, _, .child stored under above, Nat.le_refl _⟩
      · obtain ⟨known, older, ancestry, short⟩ := ih there
        exact ⟨known, older, ancestry, Nat.le_succ_of_le short⟩

/-- No context is among its own ancestors. -/
theorem Ancestry.nodup (rooted : Rooted s) (ancestry : Ancestry s name chain) :
    (chain.map Context.name).Nodup := by
  induction ancestry with
  | root stored top => exact List.nodup_singleton _
  | child stored under above ih =>
      refine List.nodup_cons.2 ⟨fun again => ?_, ih⟩
      obtain ⟨d, there, same⟩ := List.mem_map.1 again
      obtain ⟨_, older, ancestry, short⟩ := above.of_mem rooted there
      rw [same, rooted.named _ _ stored] at ancestry
      -- the ancestry of one name would have two lengths
      obtain rfl := ancestry.unique (.child stored under above)
      exact absurd short (Nat.not_succ_le_self _)

theorem Ancestry.length_le (rooted : Rooted s) (ancestry : Ancestry s name chain) :
    chain.length ≤ s.contexts.size := by
  have known : chain.map Context.name ⊆ s.contexts.keys := fun name there => by
    obtain ⟨d, member, rfl⟩ := List.mem_map.1 there
    exact Table.mem_keys_iff.2 ⟨d, (ancestry.of_mem rooted member).1⟩
  have short := (List.subperm_of_subset (ancestry.nodup rooted) known).length_le
  rwa [List.length_map, Table.keys, List.length_map] at short

theorem Ancestry.chainFrom_eq (ancestry : Ancestry s name chain) {bound : Nat}
    (short : chain.length ≤ bound) : s.chainFrom bound name = chain := by
  induction ancestry generalizing bound with
  | root stored top =>
      obtain ⟨bound, rfl⟩ := Nat.exists_eq_add_one.2 short
      simp only [chainFrom, stored, top]
  | child stored under above ih =>
      obtain ⟨bound, rfl⟩ := Nat.exists_eq_add_one.2 (Nat.lt_of_lt_of_le (Nat.succ_pos _) short)
      simp only [chainFrom, stored, under, ih (Nat.le_of_succ_le_succ short)]

/-- **A store follows the ancestry of a context to its end.** -/
theorem Rooted.chain_eq (rooted : Rooted s) (ancestry : Ancestry s name chain) :
    s.chain name = chain :=
  ancestry.chainFrom_eq (ancestry.length_le rooted)

/-! ## Stores -/

theorem get?_insert (s : ContextStore) (c : Context) (name : String) :
    (s.insert c).get? name = if name = c.name then some c else s.get? name :=
  Table.get?_insert ..

theorem get?_insert_self (s : ContextStore) (c : Context) : (s.insert c).get? c.name = some c := by
  rw [get?_insert, if_pos rfl]

theorem get?_insert_of_ne (s : ContextStore) (c : Context) (other : name ≠ c.name) :
    (s.insert c).get? name = s.get? name := by
  rw [get?_insert, if_neg other]

/-- An ancestry without a context of this name stays as it is. -/
theorem Ancestry.insert_of_not_mem (rooted : Rooted s) (ancestry : Ancestry s name chain)
    (apart : ∀ d ∈ chain, d.name ≠ c.name) : Ancestry (s.insert c) name chain := by
  induction ancestry with
  | root stored top =>
      have other := rooted.named _ _ stored ▸ apart _ (List.mem_singleton_self _)
      exact .root ((get?_insert_of_ne s c other).trans stored) top
  | child stored under above ih =>
      have other := rooted.named _ _ stored ▸ apart _ (List.mem_cons_self ..)
      exact .child ((get?_insert_of_ne s c other).trans stored) under
        (ih fun d there => apart d (List.mem_cons_of_mem _ there))

/-- An ancestry that comes to the new context goes on with the ancestry of that one. -/
theorem Ancestry.insert (ancestry : Ancestry s name chain) {above : List Context}
    (new : Ancestry (s.insert c) c.name above) : ∃ chain, Ancestry (s.insert c) name chain := by
  induction ancestry with
  | @root name d stored top =>
      by_cases here : name = c.name
      · exact ⟨above, here ▸ new⟩
      · exact ⟨_, .root ((get?_insert_of_ne s c here).trans stored) top⟩
  | @child name _ d _ stored under _ ih =>
      by_cases here : name = c.name
      · exact ⟨above, here ▸ new⟩
      · obtain ⟨older, ancestry⟩ := ih
        exact ⟨_, .child ((get?_insert_of_ne s c here).trans stored) under ancestry⟩

theorem Rooted.insert {above : List Context} (rooted : Rooted s)
    (new : Ancestry (s.insert c) c.name above) : Rooted (s.insert c) where
  named name d stored := by
    by_cases here : name = c.name
    · subst here
      rw [get?_insert_self] at stored
      rw [Option.some.inj stored]
    · exact rooted.named name d ((get?_insert_of_ne s c here).symm.trans stored)
  ancestry name d stored := by
    by_cases here : name = c.name
    · exact ⟨above, here ▸ new⟩
    · obtain ⟨chain, ancestry⟩ :=
        rooted.ancestry name d ((get?_insert_of_ne s c here).symm.trans stored)
      exact ancestry.insert new

/-- What it takes to give a context a parent. -/
theorem setParent_eq_ok {next : ContextStore} {child : String} {parent : Option String}
    (done : s.setParent child parent = .ok next) :
    ∃ c, s.get? child = some c ∧ next = ⟨s.contexts.insert child { c with parent }⟩ ∧
      ∀ name, parent = some name →
        (∃ d, s.get? name = some d) ∧ ∀ ancestor ∈ s.chain name, ancestor.name ≠ child := by
  rw [setParent] at done
  cases stored : s.get? child with
  | none => rw [stored] at done; cases done
  | some c =>
      rw [stored] at done
      cases parent with
      | none =>
          obtain rfl := Except.ok.inj done
          exact ⟨c, rfl, rfl, fun _ is => nomatch is⟩
      | some parent =>
          dsimp only at done
          cases known : s.contexts.contains parent with
          | false => rw [known] at done; cases done
          | true =>
              rw [known] at done
              cases cycle : (s.chain parent).any fun ancestor => ancestor.name == child with
              | true => rw [cycle] at done; cases done
              | false =>
                  rw [cycle] at done
                  obtain rfl := Except.ok.inj done
                  refine ⟨c, rfl, rfl, fun name is => ?_⟩
                  obtain rfl := Option.some.inj is
                  refine ⟨Option.isSome_iff_exists.1 known, fun ancestor there same => ?_⟩
                  rw [List.any_eq_false] at cycle
                  exact cycle ancestor there (beq_iff_eq.2 same)

theorem Rooted.setParent (rooted : Rooted s) {next : ContextStore} {child : String}
    {parent : Option String} (done : s.setParent child parent = .ok next) : Rooted next := by
  obtain ⟨c, stored, rfl, apart⟩ := setParent_eq_ok done
  obtain rfl := rooted.named _ _ stored
  show Rooted (s.insert { c with parent })
  cases parent with
  | none => exact rooted.insert (.root (get?_insert_self ..) rfl)
  | some parent =>
      obtain ⟨⟨d, known⟩, apart⟩ := apart parent rfl
      obtain ⟨chain, ancestry⟩ := rooted.ancestry parent d known
      rw [rooted.chain_eq ancestry] at apart
      exact rooted.insert
        (.child (get?_insert_self ..) rfl (ancestry.insert_of_not_mem rooted apart))

/-- The stores that operations lead to.  A context comes without a parent. -/
inductive Reached : ContextStore → Prop
  | empty : Reached .empty
  | insert {s : ContextStore} {c : Context} (reached : Reached s) (fresh : c.parent = none) :
      Reached (s.insert c)
  | setParent {s next : ContextStore} {child : String} {parent : Option String}
      (reached : Reached s) (done : s.setParent child parent = .ok next) : Reached next

/-- **Every context of a store has an ancestry.** -/
theorem Reached.rooted (reached : Reached s) : Rooted s := by
  induction reached with
  | empty => exact ⟨fun _ _ stored => (nomatch stored), fun _ _ stored => (nomatch stored)⟩
  | insert _ fresh ih => exact ih.insert (.root (get?_insert_self ..) fresh)
  | setParent _ done ih => exact ih.setParent done

end

end PulseSequencer.ContextStore
