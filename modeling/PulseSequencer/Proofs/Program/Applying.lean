import PulseSequencer.Proofs.Program.DataImage

/-
# PulseSequencer.Proofs.Program.Applying -- what applying a context tells

A context writes values, then three tables of masks, then switches: each part tells the
words that it changed itself, and a variable may be changed by several of them, back to
its old word too.  `Reports` says that what is told so far is right, whatever was told
before it: every slot once and with the word that it has now, and the other slots are as
before.  A part that is right about the program in front of it keeps that
(`thenUpdate_reports`), and so do parts one after the other (`foldl_thenUpdate_reports`).

Main statement: `changes_of_apply`.
-/

namespace PulseSequencer

set_option autoImplicit false

namespace Program

/-- The programs that there are: what operations lead to, with any table that leads back
to the lines of another source. -/
inductive Reached : Program → Prop
  | withLimits (limits : MemoryLimits) : Reached (withLimits limits)
  | perform {p : Program} (reached : Reached p) (operation : Operation) :
      Reached (p.perform operation)
  | traced {p : Program} (reached : Reached p) (lines : Table Nat Nat) :
      Reached { p with lineLookup := lines }

variable {p before : Program} {u : Updated}

theorem Reached.coherent (reached : Reached p) : p.Coherent := by
  induction reached with
  | withLimits limits => exact coherent_withLimits limits
  | perform _ operation ih => exact coherent_perform ih operation
  | traced _ _ ih => exact ⟨ih.placed, ih.data⟩

/-- What is told since a program was as it was before. -/
structure Reports (before : Program) (u : Updated) : Prop where
  coherent : u.program.Coherent
  length_eq : u.program.data.length = before.data.length
  once : (u.changes.map Prod.fst).Nodup
  current : ∀ slot word, (slot, word) ∈ u.changes → u.program.data[slot]? = some word
  kept : ∀ slot, slot ∉ u.changes.map Prod.fst → u.program.data[slot]? = before.data[slot]?

theorem Reports.refl (coherent : p.Coherent) : Reports p { program := p } where
  coherent := coherent
  length_eq := rfl
  once := List.nodup_nil
  current _ _ there := nomatch there
  kept _ _ := rfl

/-! ## The parts -/

/-- **A series of changes tells all that it changes.** -/
theorem reports_updateEach {α : Type} {change : Variable → α → Variable}
    (resets : ∀ a, Variable.Resets fun v => change v a) (coherent : p.Coherent)
    (values : Table String α) : Reports p (updateEach change p values) := by
  have exactly := exactChanges_updateEach resets coherent values
  refine ⟨(revises_updateEach resets values).coherent coherent, exactly.length_eq, exactly.once,
    fun slot word there => ((exactly.mem_iff slot word).1 there).1, fun slot untold => ?_⟩
  cases now : (updateEach change p values).program.data[slot]? with
  | none =>
      have beyond := List.getElem?_eq_none_iff.1 now
      rw [exactly.length_eq] at beyond
      exact (List.getElem?_eq_none_iff.2 beyond).symm
  | some word =>
      by_contra differs
      have told := (exactly.mem_iff slot word).2 ⟨now, fun same => differs same.symm⟩
      exact untold (List.mem_map.2 ⟨(slot, word), told, rfl⟩)

/-- One slot has a new word, which is told if it is another one. -/
theorem reports_of_set {after : Program} (coherent : after.Coherent) {slot : Nat}
    {old new : UInt64} (held : p.data[slot]? = some old) (stored : after.data = p.data.set slot new)
    (notices : List Notice) :
    Reports p ⟨after, if old = new then [] else [(slot, new)], notices⟩ := by
  have inside : slot < p.data.length := (List.getElem?_eq_some_iff.1 held).1
  have here : after.data[slot]? = some new := by
    rw [stored, List.getElem?_set_self inside]
  have length : after.data.length = p.data.length := by rw [stored, List.length_set]
  by_cases same : old = new
  · rw [if_pos same]
    refine ⟨coherent, length, List.nodup_nil, fun _ _ there => (nomatch there), fun other _ => ?_⟩
    show after.data[other]? = p.data[other]?
    by_cases this : slot = other
    · rw [← this, here, held, same]
    · rw [stored, List.getElem?_set_ne this]
  · rw [if_neg same]
    refine ⟨coherent, length, List.nodup_singleton _, fun other word there => ?_,
      fun other untold => ?_⟩
    · obtain ⟨rfl, rfl⟩ := Prod.mk.inj (List.mem_singleton.1 there)
      exact here
    · have different : slot ≠ other := fun this => untold (List.mem_singleton.2 this.symm)
      show after.data[other]? = p.data[other]?
      rw [stored, List.getElem?_set_ne different]

/-- **A switch tells what it changes.** -/
theorem reports_setEnabled (coherent : p.Coherent) (name : String) (enabled : Bool) :
    Reports p (p.setEnabled name enabled) := by
  have after := (revises_setEnabled name enabled).coherent coherent
  cases found : p.find? name with
  | none =>
      simp only [setEnabled, found]
      exact Reports.refl coherent
  | some v =>
      by_cases already : v.enabled = enabled
      · simp only [setEnabled, found, if_pos already]
        exact Reports.refl coherent
      · simp only [setEnabled, found, if_neg already] at after ⊢
        have held := coherent.getElem?_data_of_find? found
        have before : p.wordAt v.slot = v.word := by rw [wordAt, held, Option.getD_some]
        rw [before]
        exact reports_of_set after held rfl _

end Program

/-! ## One part after another -/

namespace ResolvedContext

open Program

variable {before : Program} {u : Updated}

/-- Changes that are told anew take the place of older ones of their slots. -/
theorem foldl_addChange {new : List Change} (once : (new.map Prod.fst).Nodup)
    (old : List Change) :
    new.foldl addChange old = old.filter (fun c => c.1 ∉ new.map Prod.fst) ++ new := by
  induction new generalizing old with
  | nil => simp
  | cons c rest ih =>
      obtain ⟨first, once⟩ := List.nodup_cons.1 once
      have stays : [c].filter (fun d => d.1 ∉ rest.map Prod.fst) = [c] :=
        List.filter_eq_self.2 fun d there => by
          rw [List.mem_singleton.1 there]
          exact decide_eq_true first
      rw [List.foldl_cons, ih once, addChange, List.filter_append, stays, List.filter_filter,
        List.append_assoc, List.singleton_append]
      congr 1
      refine List.filter_congr fun d _ => ?_
      rw [Bool.eq_iff_iff]
      simp [and_comm]

/-- **One part after another.** -/
theorem thenUpdate_reports (reports : Reports before u) {part : Program → Updated}
    (next : Reports u.program (part u.program)) : Reports before (thenUpdate u part) := by
  have changes : (thenUpdate u part).changes =
      u.changes.filter (fun c => c.1 ∉ (part u.program).changes.map Prod.fst) ++
        (part u.program).changes := foldl_addChange next.once u.changes
  refine ⟨next.coherent, next.length_eq.trans reports.length_eq, ?_, fun slot word there => ?_,
    fun slot untold => ?_⟩
  · rw [changes, List.map_append]
    refine List.nodup_append.2
      ⟨reports.once.sublist (List.filter_sublist.map Prod.fst), next.once, ?_⟩
    rintro slot older _ newer rfl
    obtain ⟨c, kept, rfl⟩ := List.mem_map.1 older
    exact of_decide_eq_true (List.mem_filter.1 kept).2 newer
  · rw [changes] at there
    rcases List.mem_append.1 there with older | newer
    · obtain ⟨told, apart⟩ := List.mem_filter.1 older
      exact (next.kept slot (of_decide_eq_true apart)).trans (reports.current slot word told)
    · exact next.current slot word newer
  · rw [changes, List.map_append, List.mem_append, not_or] at untold
    have older : slot ∉ u.changes.map Prod.fst := fun there => by
      obtain ⟨c, told, rfl⟩ := List.mem_map.1 there
      exact untold.1 (List.mem_map.2 ⟨c, List.mem_filter.2 ⟨told, decide_eq_true untold.2⟩, rfl⟩)
    exact (next.kept slot untold.2).trans (reports.kept slot older)

/-- **Parts one after the other.** -/
theorem foldl_thenUpdate_reports {α : Type} {part : α → Program → Updated}
    (each : ∀ a (p : Program), p.Coherent → Reports p (part a p)) (parts : List α)
    (reports : Reports before u) :
    Reports before (parts.foldl (fun u a => thenUpdate u (part a)) u) := by
  induction parts generalizing u with
  | nil => exact reports
  | cons a rest ih => exact ih (thenUpdate_reports reports (each a _ reports.coherent))

theorem reports_apply {p : Program} (coherent : p.Coherent) (c : ResolvedContext) :
    Reports p (c.apply p) := by
  have values := reports_updateEach resets_withValue coherent c.values
  have masked := foldl_thenUpdate_reports
    (fun (masks : Table String UInt64) p coherent => reports_updateEach resets_withMask coherent masks)
    [c.shutters, c.triggers, c.counters] values
  exact foldl_thenUpdate_reports
    (fun name p coherent => reports_setEnabled coherent name (name ∉ c.disabled)) c.values.keys masked

/-- **Applying a context tells every changed word once and finally.**  No slot is told
twice, each with the word that it has afterwards; a slot with another word than before is
told, and one that is not told is as it was.  Afterwards every variable is as the context
changes it. -/
theorem changes_of_apply {p : Program} (reached : p.Reached) (c : ResolvedContext) :
    let u := c.apply p
    (u.changes.map Prod.fst).Nodup ∧
      (∀ slot word, (slot, word) ∈ u.changes → u.program.data[slot]? = some word) ∧
      (∀ slot, u.program.data[slot]? ≠ p.data[slot]? → ∃ word, (slot, word) ∈ u.changes) ∧
      (∀ slot, (∀ word, (slot, word) ∉ u.changes) → u.program.data[slot]? = p.data[slot]?) ∧
      u.program.data.length = p.data.length ∧ u.program = p.revise c.change := by
  intro u
  have coherent := reached.coherent
  have reports : Reports p u := reports_apply coherent c
  have kept : ∀ slot, (∀ word, (slot, word) ∉ u.changes) →
      u.program.data[slot]? = p.data[slot]? := fun slot untold =>
    reports.kept slot fun there => by
      obtain ⟨⟨_, word⟩, told, rfl⟩ := List.mem_map.1 there
      exact untold word told
  refine ⟨reports.once, reports.current, fun slot differs => ?_, kept, reports.length_eq,
    (revises_apply c).program p coherent⟩
  by_contra untold
  exact differs (kept slot (not_exists.1 untold))

/-- A value that is switched off again, a mask that is written back, and one that stays. -/
def repeating : ResolvedContext where
  values := Table.ofList [("a", .plain 5), ("b", .plain 2), ("none", .plain 1)]
  disabled := ["a"]
  shutters := Table.ofList [("open", 6)]
  counters := Table.ofList [("open", 3)]

theorem changes_of_apply_repeating :
    let p := (withLimits {}).perform
      (.load "main.pp" "var a 1\nvar b 2\nvar open 3, masked_shutter\nLDWR a\nEND" Library.empty)
    let u := repeating.apply p
    p.Reached ∧ p.data = [1, 2, 3] ∧ u.program.data = [0, 2, 3] ∧ u.changes = [(2, 3), (0, 0)] ∧
      (u.changes.map Prod.fst).Nodup ∧
      (∀ slot word, (slot, word) ∈ u.changes → u.program.data[slot]? = some word) ∧
      (∀ slot, u.program.data[slot]? ≠ p.data[slot]? → ∃ word, (slot, word) ∈ u.changes) ∧
      (∀ slot, (∀ word, (slot, word) ∉ u.changes) → u.program.data[slot]? = p.data[slot]?) ∧
      u.program.data.length = p.data.length ∧ u.program = p.revise repeating.change :=
  have reached := Reached.perform (.withLimits {}) _
  ⟨reached, by decide +kernel, by decide +kernel, by decide +kernel,
    changes_of_apply reached repeating⟩

end ResolvedContext

end PulseSequencer
