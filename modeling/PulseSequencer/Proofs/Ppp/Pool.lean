import PulseSequencer.Ppp.Compiler
import PulseSequencer.Proofs.Formula.Units
import PulseSequencer.Proofs.Table
import Mathlib.Data.List.Infix

/-
# PulseSequencer.Proofs.Ppp.Pool -- what is made stays made

While code is made, declarations, cells of folded values, scratch cells and labels
only come in: `Pool.Extends`.  So a cell or label that some code names is there when
all code is made.  `Grows` and `Climbs` say this of a part of the lowering, and carry
over to whatever is put together from such parts.
-/

namespace PulseSequencer.Ppp

set_option autoImplicit false

/-! ## Steps of the lowering -/

/-- What a part of the lowering makes of a pool. -/
def Made {α : Type} (m : Lowering α) (p : Pool) (result : α) (q : Pool) : Prop :=
  m.run p = .ok (result, q)

section Made

variable {α β : Type} {m : Lowering α} {f : α → Lowering β} {p q : Pool}

@[simp] theorem made_pure {a b : α} : Made (pure a) p b q ↔ a = b ∧ p = q := by
  simp only [Made, StateT.run_pure]
  exact ⟨fun made => Prod.mk.inj (Except.ok.inj made), fun ⟨rfl, rfl⟩ => rfl⟩

theorem made_bind {b : β} :
    Made (m >>= f) p b q ↔ ∃ a middle, Made m p a middle ∧ Made (f a) middle b q := by
  simp only [Made, StateT.run_bind, bind_eq_ok]
  constructor
  · rintro ⟨⟨a, middle⟩, first, rest⟩
    exact ⟨a, middle, first, rest⟩
  · rintro ⟨a, middle, first, rest⟩
    exact ⟨(a, middle), first, rest⟩

@[simp] theorem made_get {a : Pool} : Made get p a q ↔ p = a ∧ p = q := by
  simp only [Made, StateT.run_get]
  exact ⟨fun made => Prod.mk.inj (Except.ok.inj made), fun ⟨rfl, rfl⟩ => rfl⟩

@[simp] theorem made_set {r : Pool} {a : Unit} : Made (set r) p a q ↔ r = q := by
  simp only [Made, StateT.run_set]
  exact ⟨fun made => (Prod.mk.inj (Except.ok.inj made)).2, fun same => by rw [same]; rfl⟩

@[simp] theorem made_modify {g : Pool → Pool} {a : Unit} : Made (modify g) p a q ↔ g p = q := by
  simp only [Made, StateT.run_modify]
  exact ⟨fun made => (Prod.mk.inj (Except.ok.inj made)).2, fun same => by rw [same]; rfl⟩

@[simp] theorem not_made_throw {e : CompileError} {a : α} :
    ¬Made (throw e : Lowering α) p a q := by
  intro made
  cases made

@[simp] theorem made_liftM {x : Except CompileError α} {a : α} :
    Made (liftM x : Lowering α) p a q ↔ x = .ok a ∧ p = q := by
  cases x with
  | error e =>
      refine ⟨fun made => ?_, ?_⟩
      · cases made
      · rintro ⟨⟨⟩, _⟩
  | ok value =>
      refine ⟨fun made => ?_, ?_⟩
      · cases made
        exact ⟨rfl, rfl⟩
      · rintro ⟨⟨⟩, rfl⟩
        rfl

end Made

/-! ## Growth -/

/-- The declaration of a folded value: the cell, its text, and where it is kept. -/
structure LiteralLine (constants : Table String Value) (key name : String)
    (line : AssemblyLine) : Prop where
  folded : ∃ formula evaluation magnitude unit, formula.spelled = true ∧
    Formula.Evaluator.default.evaluateFormula formula (.ofValues constants) = .ok evaluation ∧
      Setting.storable? evaluation.value = some (magnitude, unit) ∧
      key = magnitude ++ " " ++ unit ∧ line = .cell name [magnitude, "", unit]
  named : ∃ i : Nat, name = "__literal_" ++ toString i

/-- A pool with more in it: what is new are declarations of folded values, numbered one
after the other, and each of them is declared.  The number of scratch cells in use does not
matter. -/
structure Pool.Adds (constants : Table String Value) (p q : Pool) : Prop where
  declarations : p.declarations <+: q.declarations
  literals : ∀ key name, p.literals.get? key = some name → q.literals.get? key = some name
  scratch : ∀ procedure,
    (p.scratch.get? procedure).getD 0 ≤ (q.scratch.get? procedure).getD 0
  labels : p.labels ≤ q.labels
  declared : ∀ key name, q.literals.get? key = some name →
    p.literals.get? key = some name ∨
      ∃ placed ∈ q.declarations, LiteralLine constants key name placed.line
  size : p.declarations.length + q.literals.size = q.declarations.length + p.literals.size
  numbered : ∀ k placed, p.declarations.length ≤ k → q.declarations[k]? = some placed →
    ∃ key i, q.literals.get? key = some ("__literal_" ++ toString i) ∧
      LiteralLine constants key ("__literal_" ++ toString i) placed.line ∧
      p.declarations.length + i = k + p.literals.size

/-- A pool with more in it, and scratch cells of one procedure only. -/
structure Pool.Extends (constants : Table String Value) (owner : String) (p q : Pool) : Prop
    extends p.Adds constants q where
  foreign : ∀ procedure, procedure ≠ owner → q.scratch.get? procedure = p.scratch.get? procedure

section Extends

variable {constants : Table String Value} {owner : String} {p q r : Pool}

theorem Pool.Adds.refl (p : Pool) : p.Adds constants p where
  declarations := List.prefix_rfl
  literals _ _ found := found
  scratch _ := Nat.le_refl _
  labels := Nat.le_refl _
  declared _ _ found := .inl found
  size := rfl
  numbered k _ behind there := by
    rw [List.getElem?_eq_none behind] at there
    cases there

theorem Pool.Adds.trans (first : p.Adds constants q) (second : q.Adds constants r) :
    p.Adds constants r where
  declarations := first.declarations.trans second.declarations
  literals key name found := second.literals key name (first.literals key name found)
  scratch procedure := Nat.le_trans (first.scratch procedure) (second.scratch procedure)
  labels := Nat.le_trans first.labels second.labels
  declared key name found := by
    rcases second.declared key name found with old | new
    · rcases first.declared key name old with older | ⟨placed, there, line⟩
      · exact .inl older
      · exact .inr ⟨placed, second.declarations.subset there, line⟩
    · exact .inr new
  size := by
    have here := first.size
    have there := second.size
    omega
  numbered k placed behind there := by
    by_cases inFirst : k < q.declarations.length
    · have same := List.prefix_iff_getElem?.1 second.declarations k inFirst
      rw [there, ← List.getElem?_eq_getElem inFirst] at same
      obtain ⟨key, i, found, line, place⟩ := first.numbered k placed behind same.symm
      exact ⟨key, i, second.literals _ _ found, line, place⟩
    · obtain ⟨key, i, found, line, place⟩ :=
        second.numbered k placed (Nat.le_of_not_lt inFirst) there
      have size := first.size
      exact ⟨key, i, found, line, by omega⟩

theorem Pool.Extends.refl (p : Pool) : p.Extends constants owner p :=
  ⟨.refl p, fun _ _ => rfl⟩

theorem Pool.Extends.trans (first : p.Extends constants owner q)
    (second : q.Extends constants owner r) : p.Extends constants owner r :=
  ⟨first.toAdds.trans second.toAdds, fun procedure other =>
    (second.foreign procedure other).trans (first.foreign procedure other)⟩

/-- A pool that differs in labels, scratch cells and cells in use. -/
theorem Pool.Extends.of_same (declarations : q.declarations = p.declarations)
    (literals : q.literals = p.literals)
    (scratch : ∀ procedure,
      (p.scratch.get? procedure).getD 0 ≤ (q.scratch.get? procedure).getD 0)
    (foreign : ∀ procedure, procedure ≠ owner →
      q.scratch.get? procedure = p.scratch.get? procedure)
    (labels : p.labels ≤ q.labels) : p.Extends constants owner q where
  declarations := declarations ▸ List.prefix_rfl
  literals _ _ found := literals ▸ found
  scratch := scratch
  foreign := foreign
  labels := labels
  declared _ _ found := .inl (literals ▸ found)
  size := by rw [declarations, literals]
  numbered k _ behind there := by
    rw [declarations, List.getElem?_eq_none behind] at there
    cases there

end Extends

/-- A part of the lowering that takes nothing away. -/
def Grows {α : Type} (constants : Table String Value) (owner : String) (m : Lowering α) : Prop :=
  ∀ p a q, Made m p a q → p.Extends constants owner q

/-- A part of the lowering that frees no scratch cell either. -/
def Climbs {α : Type} (constants : Table String Value) (owner : String) (m : Lowering α) : Prop :=
  ∀ p a q, Made m p a q → p.Extends constants owner q ∧ p.depth ≤ q.depth

section Growth

variable {constants : Table String Value} {owner : String} {α β : Type} {m : Lowering α}
  {f : α → Lowering β}

theorem Climbs.grows (climbs : Climbs constants owner m) : Grows constants owner m :=
  fun p a q made => (climbs p a q made).1

/-- What leaves the pool alone climbs. -/
theorem climbs_of_same (same : ∀ p a q, Made m p a q → p = q) : Climbs constants owner m := by
  intro p a q made
  obtain rfl := same p a q made
  exact ⟨.refl p, Nat.le_refl _⟩

theorem climbs_pure (a : α) : Climbs constants owner (pure a : Lowering α) :=
  climbs_of_same fun _ _ _ made => (made_pure.1 made).2

theorem climbs_throw (e : CompileError) : Climbs constants owner (throw e : Lowering α) :=
  climbs_of_same fun _ _ _ made => absurd made not_made_throw

theorem climbs_liftM (x : Except CompileError α) : Climbs constants owner (liftM x : Lowering α) :=
  climbs_of_same fun _ _ _ made => (made_liftM.1 made).2

theorem climbs_get : Climbs constants owner (get : Lowering Pool) :=
  climbs_of_same fun _ _ _ made => (made_get.1 made).2

theorem Climbs.bind (first : Climbs constants owner m) (rest : ∀ a, Climbs constants owner (f a)) :
    Climbs constants owner (m >>= f) := by
  intro p b q made
  obtain ⟨a, middle, here, there⟩ := made_bind.1 made
  obtain ⟨extends₁, le₁⟩ := first p a middle here
  obtain ⟨extends₂, le₂⟩ := rest a middle b q there
  exact ⟨extends₁.trans extends₂, Nat.le_trans le₁ le₂⟩

theorem Grows.bind (first : Grows constants owner m) (rest : ∀ a, Grows constants owner (f a)) :
    Grows constants owner (m >>= f) := by
  intro p b q made
  obtain ⟨a, middle, here, there⟩ := made_bind.1 made
  exact (first p a middle here).trans (rest a middle b q there)

end Growth

namespace Setting

variable {constants : Table String Value} {owner : String}

theorem climbs_rejectAt {α : Type} (s : Setting) (offset : Nat) (fault : CompileFault) :
    Climbs constants owner (s.rejectAt offset fault : Lowering α) := climbs_throw _

theorem climbs_reject {α : Type} (position : Position) (fault : CompileFault) :
    Climbs constants owner (reject position fault : Lowering α) := climbs_throw _

/-! ## Labels, scratch cells and folded values -/

theorem made_newLabel {kind label : String} {p q : Pool} :
    Made (newLabel kind) p label q ↔
      label = "__" ++ kind ++ "_" ++ toString (p.labels + 1) ∧
        q = { p with labels := p.labels + 1 } := by
  simp only [newLabel, made_bind, made_get, made_modify, made_pure]
  constructor
  · rintro ⟨_, _, ⟨rfl, rfl⟩, _, _, rfl, rfl, rfl⟩
    exact ⟨rfl, rfl⟩
  · rintro ⟨rfl, rfl⟩
    exact ⟨_, _, ⟨rfl, rfl⟩, (), _, rfl, rfl, rfl⟩

theorem climbs_newLabel (kind : String) : Climbs constants owner (newLabel kind) := by
  intro p a q made
  obtain ⟨_, rfl⟩ := made_newLabel.1 made
  exact ⟨.of_same rfl rfl (fun _ => Nat.le_refl _) (fun _ _ => rfl) (Nat.le_succ _), Nat.le_refl _⟩

theorem scratchName_injective {i j : Nat} (same : scratchName "" i = scratchName "" j) :
    i = j := by
  have digits : Nat.repr i = Nat.repr j := (String.append_right_inj "__temp_").1 same
  rw [← Nat.ofDigitChars_ten_toDigits (n := i), ← Nat.ofDigitChars_ten_toDigits (n := j),
    ← Nat.toList_repr, ← Nat.toList_repr, digits]

/-- The cell above those in use is taken, and is there from then on. -/
theorem made_takeScratch {s : Setting} {cell : String} {p q : Pool} :
    Made s.takeScratch p cell q ↔
      cell = scratchName s.procedure p.depth ∧
        q = { p with
          depth := p.depth + 1
          scratch := p.scratch.insert s.procedure
            (max ((p.scratch.get? s.procedure).getD 0) (p.depth + 1)) } := by
  simp only [takeScratch, made_bind, made_get, made_set, made_pure]
  constructor
  · rintro ⟨_, _, ⟨rfl, rfl⟩, _, _, rfl, rfl, rfl⟩
    exact ⟨rfl, rfl⟩
  · rintro ⟨rfl, rfl⟩
    exact ⟨_, _, ⟨rfl, rfl⟩, (), _, rfl, rfl, rfl⟩

theorem climbs_takeScratch (s : Setting) : Climbs constants s.procedure s.takeScratch := by
  intro p a q made
  obtain ⟨_, rfl⟩ := made_takeScratch.1 made
  refine ⟨.of_same rfl rfl (fun procedure => ?_) (fun procedure other => ?_) (Nat.le_refl _),
    Nat.le_succ _⟩
  rw [Table.get?_insert]
  split
  · rename_i here
    subst here
    exact Nat.le_max_left _ _
  · exact Nat.le_refl _
  · rw [Table.get?_insert, if_neg other]

/-- The value that the compiler folds a formula to. -/
theorem made_fold {s : Setting} {start : Nat} {formula : Formula} {value : Value} {p q : Pool}
    (made : Made (s.fold start formula) p value q) :
    p = q ∧ ∃ evaluation, evaluation.value = value ∧
      Formula.Evaluator.default.evaluateFormula formula (.ofValues s.constants) =
        .ok evaluation := by
  obtain ⟨evaluated, same⟩ := made_liftM.1 made
  refine ⟨same, ?_⟩
  rw [evaluate] at evaluated
  split at evaluated
  · rename_i evaluation found
    exact ⟨evaluation, Except.ok.inj evaluated, found⟩
  · cases evaluated

/-- A folded value has a cell that holds its magnitude and unit.  The cell was there, or
is declared. -/
theorem made_literal {s : Setting} {start : Nat} {formula : Formula} {name : String}
    {p q : Pool} (made : Made (s.literal start formula) p name q) :
    ∃ evaluation magnitude unit,
      Formula.Evaluator.default.evaluateFormula formula (.ofValues s.constants) =
        .ok evaluation ∧
      storable? evaluation.value = some (magnitude, unit) ∧
      q.literals.get? (magnitude ++ " " ++ unit) = some name ∧
      (p = q ∨ p.literals.get? (magnitude ++ " " ++ unit) = none ∧
        name = "__literal_" ++ toString p.literals.size ∧
        q = { p with
          declarations := p.declarations ++ [⟨.cell name [magnitude, "", unit], some s.line⟩]
          literals := p.literals.insert (magnitude ++ " " ++ unit) name }) := by
  rw [literal, made_bind] at made
  obtain ⟨value, middle, folded, made⟩ := made
  obtain ⟨rfl, evaluation, rfl, evaluated⟩ := made_fold folded
  split at made
  · exact absurd made not_made_throw
  · rename_i magnitude unit stored
    refine ⟨evaluation, magnitude, unit, evaluated, stored, ?_⟩
    simp only [made_bind, made_get] at made
    obtain ⟨_, _, ⟨rfl, rfl⟩, made⟩ := made
    split at made
    · rename_i old found
      obtain ⟨rfl, rfl⟩ := made_pure.1 made
      exact ⟨found, .inl rfl⟩
    · rename_i absent
      simp only [made_bind, declare, made_modify, made_pure] at made
      obtain ⟨_, _, rfl, _, _, rfl, rfl, rfl⟩ := made
      exact ⟨by simp, .inr ⟨absent, rfl, rfl⟩⟩

theorem climbs_literal (s : Setting) (start : Nat) {formula : Formula}
    (spelled : formula.spelled = true) :
    Climbs s.constants s.procedure (s.literal start formula) := by
  intro p name q made
  obtain ⟨evaluation, magnitude, unit, evaluated, stored, _, rfl | ⟨absent, named, rfl⟩⟩ :=
    made_literal made
  · exact ⟨.refl p, Nat.le_refl _⟩
  · have line : LiteralLine s.constants (magnitude ++ " " ++ unit) name
        (.cell name [magnitude, "", unit]) :=
      ⟨⟨formula, evaluation, magnitude, unit, spelled, evaluated, stored, rfl, rfl⟩, _, named⟩
    refine ⟨⟨⟨List.prefix_append _ _, fun key other found => ?_, fun _ => Nat.le_refl _,
      Nat.le_refl _, fun key other found => ?_, ?_, fun k placed behind there => ?_⟩,
      fun _ _ => rfl⟩, Nat.le_refl _⟩
    · have differs : key ≠ magnitude ++ " " ++ unit := by
        rintro rfl
        rw [absent] at found
        exact Option.some_ne_none other found.symm
      simpa [differs] using found
    · rw [Table.get?_insert] at found
      split at found
      · rename_i here
        subst here
        obtain rfl := Option.some.inj found
        exact .inr ⟨_, List.mem_append_right _ (List.mem_singleton.2 rfl), line⟩
      · exact .inl found
    · rw [Table.size_insert_of_get? absent, List.length_append, List.length_singleton]
      omega
    · rcases getElem?_append_singleton there with old | ⟨rfl, rfl⟩
      · rw [List.getElem?_eq_none behind] at old
        cases old
      · subst named
        exact ⟨magnitude ++ " " ++ unit, _, by simp, line, rfl⟩

/-- The target of an assignment is the cell of a variable in scope. -/
theorem made_target {s : Setting} {name cell : String} {position : Position} {p q : Pool}
    (made : Made (s.target name position) p cell q) :
    p = q ∧ ∃ kind slot, s.scope.lookup name = some (.cell kind slot cell) := by
  unfold target at made
  split at made
  · rename_i kind slot other found
    obtain ⟨rfl, rfl⟩ := made_pure.1 made
    exact ⟨rfl, kind, slot, found⟩
  all_goals exact absurd made not_made_throw

end Setting

/-! ## Placed lines -/

@[simp] theorem placed_lines (line : Nat) (code : List AssemblyLine) :
    (placed line code).map PlacedLine.line = code := by
  simp [placed, Function.comp_def]

@[simp] theorem placed_length (line : Nat) (code : List AssemblyLine) :
    (placed line code).length = code.length := List.length_map _

end PulseSequencer.Ppp
