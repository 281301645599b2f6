import PulseSequencer.Proofs.Ppp.Growth
import PulseSequencer.Proofs.Ppp.LineMachine

/-
# PulseSequencer.Proofs.Ppp.Computation -- the code of a formula computes it

Started where the cells of the variables hold a store, the code of a plain formula
brings the word of the formula to W or to a cell, and changes nothing but scratch
cells above those in use: `computes_lower`.  The code of a condition goes to its label
if the truth of the condition is as wanted, and else to its own end: `decides_jump`.
-/

namespace PulseSequencer.Ppp

open PulseSequencer.Machine

set_option autoImplicit false

/-! ## The image of a source -/

/-- How many scratch cells the main program has in the end. -/
def Pool.scratchCount (final : Pool) : Nat := (final.scratch.get? "").getD 0

/-- What the formulas at a place of the main program are read with. -/
def Setting.reading (s : Setting) (alu : Alu) : Reading := ⟨alu, s.scope, s.constants⟩

/-- The lines of a source: every cell that code can name is declared and is of one
kind, and every label is defined once. -/
structure Image (s : Setting) (lines : List AssemblyLine) (final : Pool) : Prop where
  main : s.procedure = ""
  labels : (labelNames lines).Nodup
  named : ∀ name kind slot cell, s.scope.lookup name = some (.cell kind slot cell) → cell = name
  cell : ∀ name kind slot cell, s.scope.lookup name = some (.cell kind slot cell) →
    name ∈ cellNames lines ∧ ∀ k < final.scratchCount, name ≠ Setting.scratchName "" k
  literal : ∀ key name, final.literals.get? key = some name →
    name ∈ cellNames lines ∧ (∀ k < final.scratchCount, name ≠ Setting.scratchName "" k) ∧
      ∀ kind slot cell, s.scope.lookup name ≠ some (.cell kind slot cell)
  scratch : ∀ k < final.scratchCount, Setting.scratchName "" k ∈ cellNames lines

/-- The cells of the variables hold a store, and those of folded values their words. -/
structure Holds (s : Setting) (final : Pool) (store : Store) (t : State String) : Prop where
  cell : ∀ name kind slot cell, s.scope.lookup name = some (.cell kind slot cell) →
    t.memory name = store name
  literal : ∀ formula evaluation magnitude unit name,
    Formula.Evaluator.default.evaluateFormula formula (.ofValues s.constants) = .ok evaluation →
      Setting.storable? evaluation.value = some (magnitude, unit) →
        final.literals.get? (magnitude ++ " " ++ unit) = some name →
          assembledWord magnitude unit = some (t.memory name)

/-- At most scratch cells of the main program from `low` on differ in memory. -/
def Frame (final : Pool) (low : Nat) (t u : State String) : Prop :=
  ∀ cell, (∀ k, low ≤ k → k < final.scratchCount → cell ≠ Setting.scratchName "" k) →
    u.memory cell = t.memory cell

section Frame

variable {s : Setting} {lines : List AssemblyLine} {final : Pool} {low high : Nat}
  {t u v : State String}

theorem Frame.of_same (same : u.memory = t.memory) : Frame final low t u :=
  fun cell _ => congrFun same cell

theorem Frame.refl (t : State String) : Frame final low t t := .of_same rfl

theorem Frame.mono (frame : Frame final high t u) (le : low ≤ high) : Frame final low t u :=
  fun cell apart => frame cell fun k above => apart k (Nat.le_trans le above)

theorem Frame.trans (first : Frame final low t u) (second : Frame final low u v) :
    Frame final low t v :=
  fun cell apart => (second cell apart).trans (first cell apart)

theorem Frame.store {k : Nat} (t : State String) (from' : low ≤ k)
    (below : k < final.scratchCount) :
    Frame final low t (t.store (Setting.scratchName "" k)) :=
  fun _ apart => t.store_other (apart k from' below)

/-- Scratch cells hold neither variables nor folded values. -/
theorem Holds.frame {store : Store} (image : Image s lines final) (holds : Holds s final store t)
    (frame : Frame final low t u) : Holds s final store u where
  cell name kind slot cell found := by
    rw [frame name fun k _ => (image.cell name kind slot cell found).2 k]
    exact holds.cell name kind slot cell found
  literal formula evaluation magnitude unit name evaluated stored found := by
    rw [frame name fun k _ => (image.literal _ name found).2.1 k]
    exact holds.literal formula evaluation magnitude unit name evaluated stored found

end Frame

/-! ## Words -/

section Words

variable {r : Reading} {store : Store}

/-- What the compiler knows stands for the word of its value. -/
theorem Reading.word_known {formula : Formula}
    (known : Setting.isConstant r.scope formula = true) :
    r.word store formula = r.constantWord formula := by
  cases formula <;> simp only [word, unlessKnown, known, if_true]

theorem Reading.word_name {offset : Nat} {name : String}
    (unknown : Setting.isConstant r.scope (.name offset name) = false) :
    r.word store (.name offset name) = some (store name) := by
  show r.unlessKnown _ _ _ = _
  rw [unlessKnown, unknown, if_neg Bool.false_ne_true]

theorem Reading.word_unary {offset : Nat} {op : UnaryOp} {operand : Formula}
    (unknown : Setting.isConstant r.scope (.unary offset op operand) = false) :
    r.word store (.unary offset op operand) = (match op with
      | .plus => r.word store operand
      | .neg => (r.word store operand).map (r.alu.sub 0)
      | .not => none) := by
  show r.unlessKnown _ _ _ = _
  rw [unlessKnown, unknown, if_neg Bool.false_ne_true]
  cases op <;> rfl

theorem Reading.word_binary {offset : Nat} {op : BinaryOp} {left right : Formula}
    (unknown : Setting.isConstant r.scope (.binary offset op left right) = false) :
    r.word store (.binary offset op left right) = (do
      (← arithmetic? r.alu op) (← r.word store left) (← r.word store right)) := by
  show r.unlessKnown _ _ _ = _
  rw [unlessKnown, unknown, if_neg Bool.false_ne_true]

end Words

/-- The instruction of an arithmetic operator performs it on W and its cell. -/
theorem perform_arithmetic (alu : Alu) {op : BinaryOp} {opcode : Opcode}
    (found : Setting.arithmetic? op = some opcode) :
    ∃ f, Reading.arithmetic? alu op = some f ∧ opcode.operandKind = .data ∧
      ∀ (cell : String) (t : State String),
        alu.perform opcode cell t = some ({ t with w := f t.w (t.memory cell) }, false) := by
  cases op <;> simp only [Setting.arithmetic?, Option.some.injEq, reduceCtorEq] at found <;>
    subst found <;> exact ⟨_, rfl, rfl, fun _ _ => rfl⟩

/-- The instruction of a comparison sets the flag to what W and its cell compare to. -/
theorem perform_comparison (alu : Alu) {op : BinaryOp} {opcode : Opcode}
    (found : Setting.comparison? op = some opcode) :
    ∃ f, Reading.comparison? alu op = some f ∧ opcode.operandKind = .data ∧
      ∀ (cell : String) (t : State String),
        alu.perform opcode cell t = some ({ t with flag := f t.w (t.memory cell) }, false) := by
  cases op <;> simp only [Setting.comparison?, Option.some.injEq, reduceCtorEq] at found <;>
    subst found <;> exact ⟨_, rfl, rfl, fun _ _ => rfl⟩

/-! ## Formulas -/

section Formulas

variable (alu : Alu) (s : Setting) (lines : List AssemblyLine) (final : Pool)

/-- Wherever the code of `m` stands, it brings the word of a formula to W. -/
def Loads (m : Lowering (List AssemblyLine)) (formula : Formula) : Prop :=
  ∀ p code q, Made m p code q → q.Extends s.constants s.procedure final →
    ∀ i t store, Placed lines i code → Holds s final store t →
      ∃ w u, (s.reading alu).word store formula = some w ∧
        Reaches (lineStep alu lines) (i, t) (i + code.length, u) ∧ u.w = w ∧
          Frame final p.depth t u

/-- Wherever the code of `m` stands, it brings the word of a formula to a cell, where it
stays while further scratch cells are taken. -/
def Provides (m : Lowering (List AssemblyLine × String)) (formula : Formula) : Prop :=
  ∀ p code cell q, Made m p (code, cell) q → q.Extends s.constants s.procedure final →
    ∀ i t store, Placed lines i code → Holds s final store t →
      ∃ w u, (s.reading alu).word store formula = some w ∧
        Reaches (lineStep alu lines) (i, t) (i + code.length, u) ∧ cell ∈ cellNames lines ∧
          Frame final p.depth t u ∧ ∀ v, Frame final q.depth u v → v.memory cell = w

/-- The code of a formula computes it. -/
structure Computes (l : Setting.Lowered) (formula : Formula) : Prop where
  loads : Loads alu s lines final l.load formula
  provides : Provides alu s lines final l.operand formula

variable {alu s lines final} (image : Image s lines final)
include image

variable (alu) in
/-- The cell of a folded value holds the word of the formula. -/
theorem literal_holds {start : Nat} {formula : Formula} {p q : Pool} {cell : String}
    (known : Setting.isConstant s.scope formula = true)
    (made : Made (s.literal start formula) p cell q)
    (extended : q.Extends s.constants s.procedure final) {store : Store} {t : State String}
    (holds : Holds s final store t) :
    (s.reading alu).word store formula = some (t.memory cell) ∧ cell ∈ cellNames lines ∧
      ∀ k < final.scratchCount, cell ≠ Setting.scratchName "" k := by
  obtain ⟨evaluation, magnitude, unit, evaluated, stored, found, _⟩ :=
    Setting.made_literal made
  have there := extended.literals _ _ found
  refine ⟨?_, (image.literal _ _ there).1, (image.literal _ _ there).2.1⟩
  rw [Reading.word_known known, Reading.constantWord, Reading.constant]
  show ((Formula.Evaluator.default.evaluateFormula formula
    (.ofValues s.constants)).toOption.map (·.value)).bind _ = _
  rw [evaluated]
  show (Setting.storable? evaluation.value).bind _ = _
  rw [stored]
  exact holds.literal formula evaluation magnitude unit cell evaluated stored there

/-- What the compiler knows is loaded from its cell. -/
theorem loads_complete {start : Nat} {formula : Formula} {load : Lowering (List AssemblyLine)}
    (loads : Setting.isConstant s.scope formula = false → Loads alu s lines final load formula) :
    Loads alu s lines final (s.complete start formula load).load formula := by
  intro p code q made extended i t store placed holds
  rw [Setting.made_complete_load] at made
  split at made
  · rename_i known
    obtain ⟨cell, made, rfl⟩ := made
    obtain ⟨read, declared, _⟩ := literal_holds alu image known made extended holds
    exact ⟨_, { t with w := t.memory cell }, read,
      .single (lineStep_cell rfl placed.getElem? declared rfl), rfl, .of_same rfl⟩
  · rename_i unknown
    exact loads (Bool.eq_false_iff.2 unknown) p code q made extended i t store placed holds

/-- An operand is the cell of a folded value, of a variable, or a scratch cell. -/
theorem provides_complete {start : Nat} {formula : Formula}
    {load : Lowering (List AssemblyLine)}
    (climbs : Setting.isConstant s.scope formula = false → Climbs s.constants s.procedure load)
    (loads : Setting.isConstant s.scope formula = false → Loads alu s lines final load formula) :
    Provides alu s lines final (s.complete start formula load).operand formula := by
  intro p code cell q made extended i t store placed holds
  rcases Setting.made_complete_operand made with ⟨known, folded, rfl⟩ |
    ⟨unknown, ⟨offset, name, kind, slot, rfl, found, rfl, rfl⟩ |
      ⟨before, middle, loaded, taken, rfl⟩⟩
  · obtain ⟨read, declared, apart⟩ := literal_holds alu image known folded extended holds
    exact ⟨_, t, read, .refl _, declared, .refl t, fun v frame => frame cell fun k _ => apart k⟩
  · obtain rfl := image.named name kind slot cell found
    obtain ⟨declared, apart⟩ := image.cell cell kind slot cell found
    refine ⟨store cell, t, Reading.word_name unknown, .refl _, declared, .refl t, ?_⟩
    intro v frame
    rw [frame cell fun k _ => apart k, holds.cell cell kind slot cell found]
  · obtain ⟨_, up⟩ := climbs unknown p before middle loaded
    have onward := (Setting.climbs_takeScratch s middle cell q taken).1.trans extended
    obtain ⟨w, u, read, reaches, inW, frame⟩ :=
      loads unknown p before middle loaded onward i t store placed.left holds
    obtain ⟨rfl, rfl⟩ := Setting.made_takeScratch.1 taken
    have below : middle.depth < final.scratchCount := by
      have counted := extended.scratch s.procedure
      rw [Table.get?_insert, if_pos rfl, image.main] at counted
      exact Nat.lt_of_lt_of_le (Nat.lt_succ_self _)
        (Nat.le_trans (Nat.le_max_right _ _) counted)
    rw [image.main] at placed ⊢
    have declared := image.scratch _ below
    refine ⟨w, u.store (Setting.scratchName "" middle.depth), read, ?_, declared,
      frame.trans (.store u up below), fun v later => ?_⟩
    · rw [List.length_append]
      exact reaches.trans (.single (lineStep_cell rfl placed.right.getElem? declared rfl))
    · rw [later _ fun k above _ same => ?_, State.store_same, inW]
      exact absurd (Setting.scratchName_injective same) (Nat.ne_of_lt above)

theorem computes_complete {start : Nat} {formula : Formula} {load : Lowering (List AssemblyLine)}
    (climbs : Setting.isConstant s.scope formula = false → Climbs s.constants s.procedure load)
    (loads : Setting.isConstant s.scope formula = false → Loads alu s lines final load formula) :
    Computes alu s lines final (s.complete start formula load) formula :=
  ⟨loads_complete image loads, provides_complete image climbs loads⟩

theorem loads_name {offset start : Nat} {name : String}
    (unknown : Setting.isConstant s.scope (.name offset name) = false) :
    Loads alu s lines final (s.loadName start name) (.name offset name) := by
  intro p code q made extended i t store placed holds
  unfold Setting.loadName at made
  split at made
  · rename_i kind slot cell found
    obtain ⟨rfl, rfl⟩ := made_pure.1 made
    obtain rfl := image.named name kind slot cell found
    obtain ⟨declared, _⟩ := image.cell cell kind slot cell found
    exact ⟨store cell, { t with w := t.memory cell }, Reading.word_name unknown,
      .single (lineStep_cell rfl placed.getElem? declared rfl),
      holds.cell cell kind slot cell found, .of_same rfl⟩
  · exact absurd made not_made_throw
  · exact absurd made not_made_throw

/-- The right operand waits in its cell while the left one is loaded. -/
theorem loads_binary {offset start : Nat} {op : BinaryOp} {left right : Formula}
    {l r : Setting.Lowered}
    (unknown : Setting.isConstant s.scope (.binary offset op left right) = false)
    (climbsLeft : Setting.LoweredClimbs s l) (climbsRight : Setting.LoweredClimbs s r)
    (onLeft : Computes alu s lines final l left) (onRight : Computes alu s lines final r right) :
    Loads alu s lines final (s.loadBinary start op l r) (.binary offset op left right) := by
  intro p code q made extended i t store placed holds
  unfold Setting.loadBinary at made
  split at made
  · rename_i opcode found
    simp only [made_bind, made_pure] at made
    obtain ⟨⟨before, cell⟩, middle, provided, behind, _, loaded, rfl, rfl⟩ := made
    obtain ⟨f, operation, kind, performed⟩ := perform_arithmetic alu found
    obtain ⟨_, up⟩ := climbsRight.2 p (before, cell) middle provided
    obtain ⟨x, u, readRight, reachesRight, declared, frameRight, keeps⟩ :=
      onRight.provides p before cell middle provided
        ((climbsLeft.1 middle behind _ loaded).1.trans extended) i t store placed.left.left holds
    obtain ⟨w, v, readLeft, reachesLeft, inW, frameLeft⟩ :=
      onLeft.loads middle behind _ loaded extended (i + before.length) u store placed.left.right
        (holds.frame image frameRight)
    refine ⟨f w x, { v with w := f w x }, ?_, ?_, rfl,
      (frameRight.trans (frameLeft.mono up)).trans (.of_same rfl)⟩
    · rw [Reading.word_binary unknown, readLeft, readRight]
      exact congrArg (fun g => g.bind fun f => some (f w x)) operation
    · have stepped : lineStep alu lines (i + (before ++ behind).length, v) =
          some (i + (before ++ behind).length + 1, { v with w := f w x }) := by
        refine lineStep_cell kind placed.right.getElem? declared ?_
        rw [performed, inW, keeps v frameLeft]
      rw [List.length_append, ← Nat.add_assoc] at stepped
      rw [List.length_append, List.length_append, ← Nat.add_assoc, ← Nat.add_assoc]
      exact (reachesRight.trans reachesLeft).trans (.single stepped)
  · split at made <;> exact absurd made not_made_throw

omit image in
theorem loads_unary {offset start : Nat} {op : UnaryOp} {operand : Formula} {l : Setting.Lowered}
    (unknown : Setting.isConstant s.scope (.unary offset op operand) = false)
    (computes : Computes alu s lines final l operand) :
    Loads alu s lines final (s.loadUnary start op l) (.unary offset op operand) := by
  intro p code q made extended i t store placed holds
  unfold Setting.loadUnary at made
  split at made
  · exact absurd made not_made_throw
  · obtain ⟨w, u, read, reaches, inW, frame⟩ :=
      computes.loads p code q made extended i t store placed holds
    exact ⟨w, u, (Reading.word_unary unknown).trans read, reaches, inW, frame⟩
  · simp only [made_bind, made_pure] at made
    obtain ⟨⟨before, cell⟩, _, provided, rfl, rfl⟩ := made
    obtain ⟨w, u, read, reaches, declared, frame, keeps⟩ :=
      computes.provides p before cell _ provided extended i t store placed.left holds
    have held : u.memory cell = w := keeps u (.refl u)
    refine ⟨alu.sub 0 w, { u with w := alu.sub 0 w }, ?_, ?_, rfl, frame.trans (.of_same rfl)⟩
    · rw [Reading.word_unary unknown, read]
      rfl
    · have cleared : lineStep alu lines (i + before.length, u) =
          some (i + before.length + 1, { u with w := 0 }) := by
        simp only [lineStep, placed.right.getElem?, Opcode.operandKind]
        rfl
      have subtracted : lineStep alu lines (i + before.length + 1, { u with w := 0 }) =
          some (i + before.length + 2, { u with w := alu.sub 0 w }) := by
        refine lineStep_cell rfl placed.right.tail.getElem? declared ?_
        rw [← held]
        rfl
      rw [List.length_append, ← Nat.add_assoc]
      exact reaches.trans (.head cleared (.single subtracted))

variable (alu) in
/-- **The code of a plain formula computes it.** -/
theorem computes_lower (start : Nat) : ∀ formula : Formula,
    plainFormula s.known formula = true →
      Computes alu s lines final (s.lower start formula) formula
  | .name offset name, _ => by
      rw [Setting.lower]
      exact computes_complete image (fun _ => Setting.climbs_loadName _ _) (loads_name image)
  | .unary offset op operand, plain => by
      rw [Setting.lower]
      have inner := fun unknown => Setting.plain_operand unknown plain
      exact computes_complete image
        (fun unknown =>
          Setting.climbs_loadUnary _ op
            (Setting.climbs_lower start operand (Setting.spelled_of_plain _ (inner unknown))))
        (fun unknown => loads_unary unknown (computes_lower start operand (inner unknown)))
  | .binary offset op left right, plain => by
      rw [Setting.lower]
      have inner := fun unknown => Setting.plain_operands unknown plain
      have climbsLeft := fun unknown => Setting.climbs_lower (s := s) start left
        (Setting.spelled_of_plain _ (inner unknown).1)
      have climbsRight := fun unknown => Setting.climbs_lower (s := s) start right
        (Setting.spelled_of_plain _ (inner unknown).2)
      exact computes_complete image
        (fun unknown => Setting.climbs_loadBinary _ op (climbsLeft unknown) (climbsRight unknown))
        (fun unknown => loads_binary image unknown (climbsLeft unknown) (climbsRight unknown)
          (computes_lower start left (inner unknown).1)
          (computes_lower start right (inner unknown).2))
  | .int _ _, known | .float _ _, known | .quantity _ _ _, known | .text _ _, known
  | .list _ _, known | .dict _ _, known | .call _ _ _, known | .index _ _ _, known => by
      rw [Setting.lower]
      all_goals first
        | exact computes_complete image
            (fun unknown => absurd known (Setting.not_known_of_unknown unknown))
            (fun unknown => absurd known (Setting.not_known_of_unknown unknown))
        | simp

end Formulas

/-! ## Conditions -/

section Truth

variable {r : Reading} {store : Store}

theorem Reading.truth_known {formula : Formula}
    (known : Setting.isConstant r.scope formula = true) :
    r.truth store formula = (r.constant formula).map Value.isTrue := by
  cases formula <;> simp only [truth, unlessKnown, known, if_true]

/-- The truth of a formula that is not a comparison is that its word is not zero. -/
theorem Reading.truth_single {formula : Formula}
    (unknown : Setting.isConstant r.scope formula = false)
    (single : Setting.isSingle formula = true)
    (plain : ∀ offset op left right, formula = .binary offset op left right →
      Setting.comparison? op = none) :
    r.truth store formula = (r.word store formula).map (· != 0) := by
  cases formula with
  | unary offset op operand =>
      cases op <;> first
        | exact absurd single Bool.false_ne_true
        | simp only [truth, unlessKnown, unknown, Bool.false_eq_true, if_false]
  | binary offset op left right =>
      have none' := plain offset op left right rfl
      cases op <;> first
        | exact absurd single Bool.false_ne_true
        | exact absurd none' (by decide)
        | simp only [truth, unlessKnown, unknown, Bool.false_eq_true, if_false, comparison?]
  | _ => simp only [truth, unlessKnown, unknown, Bool.false_eq_true, if_false]

theorem Reading.truth_comparison {offset : Nat} {op : BinaryOp} {left right : Formula}
    {holds : Word → Word → Bool}
    (unknown : Setting.isConstant r.scope (.binary offset op left right) = false)
    (compares : comparison? r.alu op = some holds) :
    r.truth store (.binary offset op left right) = (do
      holds (← r.word store left) (← r.word store right)) := by
  cases op <;> simp only [comparison?, Option.some.injEq, reduceCtorEq] at compares <;>
    subst compares <;>
    simp only [truth, unlessKnown, unknown, Bool.false_eq_true, if_false, comparison?]

theorem Reading.truth_not {offset : Nat} {operand : Formula}
    (unknown : Setting.isConstant r.scope (.unary offset .not operand) = false) :
    r.truth store (.unary offset .not operand) = (r.truth store operand).map (!·) := by
  show r.unlessKnown _ _ _ = _
  rw [unlessKnown, unknown, if_neg Bool.false_ne_true]

theorem Reading.truth_and {offset : Nat} {left right : Formula}
    (unknown : Setting.isConstant r.scope (.binary offset .and left right) = false) :
    r.truth store (.binary offset .and left right) =
      (r.truth store left).bind fun b => if b then r.truth store right else some false := by
  show r.unlessKnown _ _ _ = _
  rw [unlessKnown, unknown, if_neg Bool.false_ne_true]

theorem Reading.truth_or {offset : Nat} {left right : Formula}
    (unknown : Setting.isConstant r.scope (.binary offset .or left right) = false) :
    r.truth store (.binary offset .or left right) =
      (r.truth store left).bind fun b => if b then some true else r.truth store right := by
  show r.unlessKnown _ _ _ = _
  rw [unlessKnown, unknown, if_neg Bool.false_ne_true]

end Truth

section Conditions

variable (alu : Alu) (s : Setting) (lines : List AssemblyLine) (final : Pool)

/-- Wherever the code of `m` stands, it goes to a label if the truth of a formula is as
wanted, and to its own end otherwise. -/
def Decides (m : Bool → String → Lowering (List AssemblyLine)) (formula : Formula) : Prop :=
  ∀ wanted label p code q, Made (m wanted label) p code q →
    q.Extends s.constants s.procedure final → ∀ i j t store, Placed lines i code →
      lines[j]? = some (.label label) → Holds s final store t →
        ∃ b u, (s.reading alu).truth store formula = some b ∧
          Reaches (lineStep alu lines) (i, t) (if b = wanted then j else i + code.length, u) ∧
            Frame final p.depth t u

variable {alu s lines final}

theorem lineStep_jumpIf {whenTrue whenFalse : Opcode} {wanted b : Bool} {label : String}
    {i j : Nat} {t : State String} (distinct : (labelNames lines).Nodup)
    (kindTrue : whenTrue.operandKind = .code) (kindFalse : whenFalse.operandKind = .code)
    (onTrue : alu.perform whenTrue label t = some (t, b))
    (onFalse : alu.perform whenFalse label t = some (t, !b))
    (found : lines[i]? = some (Setting.jumpIf whenTrue whenFalse wanted label))
    (target : lines[j]? = some (.label label)) :
    lineStep alu lines (i, t) = some (if b = wanted then j else i + 1, t) := by
  cases wanted <;> cases b
  · exact lineStep_jump kindFalse distinct found target onFalse
  · exact lineStep_pass kindFalse found onFalse
  · exact lineStep_pass kindTrue found onTrue
  · exact lineStep_jump kindTrue distinct found target onTrue

variable (image : Image s lines final)
include image

/-- What the compiler knows is decided by a jump or by nothing. -/
theorem decides_known {start : Nat} {formula : Formula}
    (known : Setting.isConstant s.scope formula = true) :
    Decides alu s lines final (s.jump start formula) formula := by
  intro wanted label p code q made extended i j t store placed target holds
  rw [Setting.jump_known known, made_bind] at made
  obtain ⟨value, middle, folded, made⟩ := made
  obtain ⟨rfl, evaluation, rfl, evaluated⟩ := Setting.made_fold folded
  obtain ⟨rfl, rfl⟩ := made_pure.1 made
  refine ⟨evaluation.value.isTrue, t, ?_, ?_, .refl t⟩
  · rw [Reading.truth_known known, Reading.constant]
    show ((Formula.Evaluator.default.evaluateFormula formula
      (.ofValues s.constants)).toOption.map (·.value)).map _ = _
    rw [evaluated]
    rfl
  · split
    · rename_i as'
      rw [if_pos as'] at placed
      exact .single (lineStep_jump rfl image.labels placed.getElem? target rfl)
    · exact .refl _

theorem decides_value {start : Nat} {formula : Formula}
    (unknown : Setting.isConstant s.scope formula = false)
    (single : Setting.isSingle formula = true)
    (value : ∀ offset op left right, formula = .binary offset op left right →
      Setting.comparison? op = none)
    (computes : Computes alu s lines final (s.lower start formula) formula) :
    Decides alu s lines final (fun wanted label => do
      let code ← (s.lower start formula).load
      return code ++ [Setting.jumpIf .jmpnz .jmpz wanted label]) formula := by
  intro wanted label p code q made extended i j t store placed target holds
  simp only [made_bind, made_pure] at made
  obtain ⟨before, _, loaded, rfl, rfl⟩ := made
  obtain ⟨w, u, read, reaches, inW, frame⟩ :=
    computes.loads p before _ loaded extended i t store placed.left holds
  have jumped : lineStep alu lines (i + before.length, u) =
      some (if (w != 0) = wanted then j else i + before.length + 1, u) := by
    refine lineStep_jumpIf image.labels rfl rfl ?_ ?_ placed.right.getElem? target
    · rw [← inW]
      rfl
    · rw [← inW, bne, Bool.not_not]
      rfl
  refine ⟨w != 0, u, ?_, ?_, frame⟩
  · rw [Reading.truth_single unknown single value, read]
    rfl
  · rw [List.length_append, ← Nat.add_assoc]
    exact reaches.trans (.single jumped)

theorem decides_comparison {start offset : Nat} {op : BinaryOp} {left right : Formula}
    {opcode : Opcode} (found : Setting.comparison? op = some opcode)
    (unknown : Setting.isConstant s.scope (.binary offset op left right) = false)
    (plainLeft : plainFormula s.known left = true)
    (plainRight : plainFormula s.known right = true) :
    Decides alu s lines final (fun wanted label => do
      let (before, cell) ← (s.lower start right).operand
      let code ← (s.lower start left).load
      return before ++ code ++ [.unary opcode cell, Setting.jumpIf .jmpcmp .jmpncmp wanted label])
      (.binary offset op left right) := by
  intro wanted label p code q made extended i j t store placed target holds
  simp only [made_bind, made_pure] at made
  obtain ⟨⟨before, cell⟩, middle, provided, behind, _, loaded, rfl, rfl⟩ := made
  obtain ⟨f, compares, kind, performed⟩ := perform_comparison alu found
  have climbsLeft := Setting.climbs_lower (s := s) start left (Setting.spelled_of_plain _ plainLeft)
  obtain ⟨_, up⟩ :=
    (Setting.climbs_lower (s := s) start right (Setting.spelled_of_plain _ plainRight)).2
      p (before, cell) middle provided
  obtain ⟨x, u, readRight, reachesRight, declared, frameRight, keeps⟩ :=
    (computes_lower alu image start right plainRight).provides p before cell middle provided
      ((climbsLeft.1 middle behind _ loaded).1.trans extended) i t store placed.left.left holds
  obtain ⟨w, v, readLeft, reachesLeft, inW, frameLeft⟩ :=
    (computes_lower alu image start left plainLeft).loads middle behind _ loaded extended
      (i + before.length) u store placed.left.right (holds.frame image frameRight)
  have compared : lineStep alu lines (i + (before ++ behind).length, v) =
      some (i + (before ++ behind).length + 1, { v with flag := f w x }) := by
    refine lineStep_cell kind placed.right.getElem? declared ?_
    rw [performed, inW, keeps v frameLeft]
  have jumped : lineStep alu lines
      (i + (before ++ behind).length + 1, { v with flag := f w x }) =
        some (if f w x = wanted then j else i + (before ++ behind).length + 2,
          { v with flag := f w x }) :=
    lineStep_jumpIf image.labels rfl rfl rfl rfl placed.right.tail.getElem? target
  refine ⟨f w x, { v with flag := f w x }, ?_, ?_,
    (frameRight.trans (frameLeft.mono up)).trans (.of_same rfl)⟩
  · rw [Reading.truth_comparison unknown compares, readLeft, readRight]
    rfl
  · have reaches := reachesRight.trans reachesLeft
    rw [Nat.add_assoc, ← List.length_append] at reaches
    rw [@List.length_append _ _ [_, _], ← Nat.add_assoc]
    exact reaches.trans (.head compared (.single jumped))

/-- A single condition is a comparison, or else the word of a formula. -/
theorem decides_single {start : Nat} {formula : Formula}
    (unknown : Setting.isConstant s.scope formula = false)
    (single : Setting.isSingle formula = true) (plain : plainFormula s.known formula = true) :
    Decides alu s lines final (s.jump start formula) formula := by
  have computes : Computes alu s lines final (s.lower start formula) formula :=
    computes_lower alu image start formula plain
  intro wanted label p code q made
  rw [Setting.jump_single unknown single] at made
  unfold Setting.jumpTest at made
  split at made
  · rename_i offset op left right
    have both := Setting.plain_operands unknown plain
    split at made
    · rename_i opcode found
      exact decides_comparison image found unknown both.1 both.2 wanted label p code q made
    · rename_i absent
      refine decides_value image unknown single (fun _ _ _ _ same => ?_) computes wanted label p
        code q made
      obtain ⟨_, rfl, _, _⟩ := Formula.binary.inj same
      exact absent
  · exact absurd plain (Setting.not_known_of_unknown unknown)
  · rename_i noBinary _
    exact decides_value image unknown single
      (fun offset op left right same => absurd same (noBinary offset op left right)) computes
      wanted label p code q made

/-- The left operand settles the outcome, or leaves it to the right one. -/
theorem decides_either {start : Nat} {kind : String} {settled : Bool}
    {whole left right : Formula}
    (outcome : ∀ store a, (s.reading alu).truth store left = some a →
      (s.reading alu).truth store whole =
        if a = settled then some settled else (s.reading alu).truth store right)
    (climbsRight : ∀ wanted label, Climbs s.constants s.procedure (s.jump start right wanted label))
    (climbsLeft : ∀ wanted label, Climbs s.constants s.procedure (s.jump start left wanted label))
    (onLeft : Decides alu s lines final (s.jump start left) left)
    (onRight : Decides alu s lines final (s.jump start right) right) :
    Decides alu s lines final
      (Setting.jumpEither kind settled (s.jump start left) (s.jump start right)) whole := by
  intro wanted label p code q made extended i j t store placed target holds
  unfold Setting.jumpEither at made
  split at made
  · rename_i as'
    subst as'
    simp only [made_bind, made_pure] at made
    obtain ⟨first, middle, madeLeft, second, _, madeRight, rfl, rfl⟩ := made
    obtain ⟨further, up⟩ := climbsRight _ _ middle second _ madeRight
    obtain ⟨_, climbs⟩ := climbsLeft _ _ p first middle madeLeft
    obtain ⟨a, u, truthLeft, reachesLeft, frameLeft⟩ := onLeft _ _ p first middle madeLeft
      (further.trans extended) i j t store placed.left target holds
    by_cases settles : a = wanted
    · rw [if_pos settles] at reachesLeft
      exact ⟨wanted, u, by rw [outcome store a truthLeft, if_pos settles],
        by rw [if_pos rfl]; exact reachesLeft, frameLeft⟩
    · rw [if_neg settles] at reachesLeft
      obtain ⟨b, v, truthRight, reachesRight, frameRight⟩ := onRight _ _ middle second _ madeRight
        extended (i + first.length) j u store placed.right target (holds.frame image frameLeft)
      refine ⟨b, v, by rw [outcome store a truthLeft, if_neg settles, truthRight], ?_,
        frameLeft.trans (frameRight.mono climbs)⟩
      rw [List.length_append, ← Nat.add_assoc]
      exact reachesLeft.trans reachesRight
  · rename_i differs
    simp only [made_bind, made_pure] at made
    obtain ⟨past, p', labelled, first, middle, madeLeft, second, _, madeRight, rfl, rfl⟩ := made
    obtain ⟨_, rfl⟩ := Setting.made_newLabel.1 labelled
    obtain ⟨further, up⟩ := climbsRight _ _ middle second _ madeRight
    obtain ⟨_, climbs⟩ := climbsLeft _ _ _ first middle madeLeft
    have here : lines[i + (first ++ second).length]? = some (.label past) := placed.right.getElem?
    have passed : ∀ v, lineStep alu lines (i + (first ++ second).length, v) =
        some (i + (first ++ second).length + 1, v) := fun v => lineStep_label here
    obtain ⟨a, u, truthLeft, reachesLeft, frameLeft⟩ := onLeft _ _ _ first middle madeLeft
      (further.trans extended) i _ t store placed.left.left here holds
    rw [List.length_append, List.length_singleton, ← Nat.add_assoc]
    by_cases settles : a = settled
    · rw [if_pos (by cases a <;> cases wanted <;> simp_all)] at reachesLeft
      refine ⟨settled, u, by rw [outcome store a truthLeft, if_pos settles], ?_, frameLeft⟩
      rw [if_neg fun same => differs same.symm]
      exact reachesLeft.trans (.single (passed u))
    · rw [if_neg (by cases a <;> cases wanted <;> simp_all)] at reachesLeft
      obtain ⟨b, v, truthRight, reachesRight, frameRight⟩ := onRight _ _ middle second _ madeRight
        extended (i + first.length) j u store placed.left.right target
        (holds.frame image frameLeft)
      refine ⟨b, v, by rw [outcome store a truthLeft, if_neg settles, truthRight], ?_,
        frameLeft.trans (frameRight.mono climbs)⟩
      have reaches := reachesLeft.trans reachesRight
      split
      · rename_i as'
        rw [if_pos as'] at reaches
        exact reaches
      · rename_i not'
        rw [if_neg not', Nat.add_assoc, ← List.length_append] at reaches
        exact reaches.trans (.single (passed v))

variable (alu) in
/-- **The code of a plain condition decides it.** -/
theorem decides_jump (start : Nat) (formula : Formula)
    (plain : plainFormula s.known formula = true) :
    Decides alu s lines final (s.jump start formula) formula := by
  cases unknown : Setting.isConstant s.scope formula with
  | true => exact decides_known image unknown
  | false =>
      cases single : Setting.isSingle formula with
      | true => exact decides_single image unknown single plain
      | false =>
          match formula with
          | .unary offset .not operand =>
              have inner := decides_jump start operand (Setting.plain_operand unknown plain)
              intro wanted label p code q made extended i j t store placed target holds
              rw [Setting.jump_not unknown] at made
              obtain ⟨b, u, truth, reaches, frame⟩ :=
                inner (!wanted) label p code q made extended i j t store placed target holds
              refine ⟨!b, u, by rw [Reading.truth_not unknown, truth]; rfl, ?_, frame⟩
              have same : ((!b) = wanted) ↔ b = !wanted := by cases b <;> cases wanted <;> decide
              simpa only [same] using reaches
          | .binary offset .and left right =>
              have both := Setting.plain_operands unknown plain
              intro wanted label p code q made
              rw [Setting.jump_and unknown] at made
              refine decides_either image (fun store a truth => ?_)
                (fun _ _ => Setting.climbs_jump start right _ _ (Setting.spelled_of_plain _ both.2))
                (fun _ _ => Setting.climbs_jump start left _ _ (Setting.spelled_of_plain _ both.1))
                (decides_jump start left both.1) (decides_jump start right both.2) wanted label
                p code q made
              rw [Reading.truth_and unknown, truth]
              cases a <;> rfl
          | .binary offset .or left right =>
              have both := Setting.plain_operands unknown plain
              intro wanted label p code q made
              rw [Setting.jump_or unknown] at made
              refine decides_either image (fun store a truth => ?_)
                (fun _ _ => Setting.climbs_jump start right _ _ (Setting.spelled_of_plain _ both.2))
                (fun _ _ => Setting.climbs_jump start left _ _ (Setting.spelled_of_plain _ both.1))
                (decides_jump start left both.1) (decides_jump start right both.2) wanted label
                p code q made
              rw [Reading.truth_or unknown, truth]
              cases a <;> rfl

end Conditions

end PulseSequencer.Ppp
