import Mathlib.Data.List.Nodup
import PulseSequencer.Proofs.Ppp.CompiledLines

/-
# PulseSequencer.Proofs.Ppp.GeneratedNames -- the compiler makes no name twice

Labels are numbered through the whole program, folded values through the pool, and scratch
cells within their procedure; the number can be told from the name
(`append_nat_injective`).  So the labels of the code are those of the procedures and
others that are all different (`Compilation.labels`), and the cells behind those of the
source are all different as well (`Compilation.cells`).
-/

namespace PulseSequencer.Ppp

open Setting
open PulseSequencer.Assembler (isIdentifier isIdentifierStart isIdentifierPart)

set_option autoImplicit false

/-! ## Numbers at the end of a name -/

/-- The number behind the last underscore can be told from a name. -/
theorem append_nat_injective {x y : String} {m n : Nat}
    (same : x ++ "_" ++ toString m = y ++ "_" ++ toString n) : x = y ∧ m = n := by
  have behind : ∀ (z : String) (k : Nat), ((z ++ "_" ++ toString k).toList.reverse.takeWhile
      Char.isDigit) = (toString k).toList.reverse := by
    intro z k
    have digits : ∀ c ∈ (toString k).toList.reverse, c.isDigit = true := fun c there =>
      Number.isDigit_of_nat (List.mem_reverse.1 there)
    rw [String.toList_append, String.toList_append, List.reverse_append,
      List.takeWhile_append_of_pos digits, List.reverse_append]
    simp
  have digits : (toString m).toList = (toString n).toList :=
    List.reverse_injective (by rw [← behind x m, same, behind y n])
  have numbers : m = n := by
    rw [← Nat.ofDigitChars_ten_toDigits (n := m), ← Nat.ofDigitChars_ten_toDigits (n := n),
      ← Nat.toList_repr, ← Nat.toList_repr]
    exact congrArg _ digits
  subst numbers
  have heads := (String.append_left_inj _).1 same
  exact ⟨(String.append_left_inj _).1 heads, rfl⟩

theorem isIdentifier_append {a b : List Char} (identifier : isIdentifier a = true)
    (parts : ∀ c ∈ b, isIdentifierPart c = true) : isIdentifier (a ++ b) = true := by
  cases a with
  | nil => cases identifier
  | cons c rest =>
      rw [isIdentifier, Bool.and_eq_true] at identifier
      rw [List.cons_append, isIdentifier, List.all_append, identifier.1, identifier.2,
        List.all_eq_true.2 parts]
      rfl

theorem isIdentifier_append_nat {head : String} (identifier : isIdentifier head.toList = true)
    (n : Nat) : isIdentifier (head ++ "_" ++ toString n).toList = true := by
  rw [String.toList_append, String.toList_append]
  have mark : "_".toList.all isIdentifierPart = true := by decide
  refine isIdentifier_append (isIdentifier_append identifier (List.all_eq_true.1 mark))
    fun c there => ?_
  rw [isIdentifierPart, Char.isAlphanum, Number.isDigit_of_nat there]
  simp

/-! ## Labels -/

/-- Different labels, numbered above `a` and up to `b`. -/
structure Numbered (a b : Nat) (labels : List String) : Prop where
  le : a ≤ b
  nodup : labels.Nodup
  number : ∀ label ∈ labels, ∃ word n, isIdentifier ("__" ++ word).toList = true ∧
    a < n ∧ n ≤ b ∧ label = "__" ++ word ++ "_" ++ toString n

section Numbered

variable {a b c : Nat} {xs ys : List String}

theorem numbered_nil (le : a ≤ b) : Numbered a b [] :=
  ⟨le, List.nodup_nil, fun _ there => absurd there List.not_mem_nil⟩

theorem Numbered.perm (numbered : Numbered a b xs) (perm : xs.Perm ys) : Numbered a b ys :=
  ⟨numbered.le, perm.nodup numbered.nodup, fun label there =>
    numbered.number label (perm.mem_iff.2 there)⟩

theorem Numbered.append (first : Numbered a b xs) (second : Numbered b c ys) :
    Numbered a c (xs ++ ys) where
  le := Nat.le_trans first.le second.le
  nodup := by
    refine List.nodup_append.2 ⟨first.nodup, second.nodup, fun x inFirst y inSecond same => ?_⟩
    obtain ⟨_, m, _, _, below, rfl⟩ := first.number x inFirst
    obtain ⟨_, n, _, above, _, rfl⟩ := second.number y inSecond
    obtain ⟨_, rfl⟩ := append_nat_injective same
    omega
  number label there := by
    have le := first.le
    have le' := second.le
    rcases List.mem_append.1 there with here | there
    · obtain ⟨word, n, identifier, above, below, named⟩ := first.number label here
      exact ⟨word, n, identifier, above, by omega, named⟩
    · obtain ⟨word, n, identifier, above, below, named⟩ := second.number label there
      exact ⟨word, n, identifier, by omega, below, named⟩

theorem numbered_newLabel {kind label : String} {p q : Pool}
    (word : isIdentifier ("__" ++ kind).toList = true) (made : Made (newLabel kind) p label q) :
    Numbered p.labels q.labels [label] := by
  obtain ⟨rfl, rfl⟩ := made_newLabel.1 made
  exact ⟨Nat.le_succ _, List.pairwise_singleton _ _,
    List.forall_mem_singleton.2 ⟨kind, _, word, Nat.lt_succ_self _, Nat.le_refl _, rfl⟩⟩

theorem Numbered.isIdentifier (numbered : Numbered a b xs) {label : String} (there : label ∈ xs) :
    Assembler.isIdentifier label.toList = true := by
  obtain ⟨_, n, identifier, _, _, rfl⟩ := numbered.number label there
  exact isIdentifier_append_nat identifier n

end Numbered

theorem labelNames_of_straight {stores calls : String → Prop} {code : List AssemblyLine}
    (straight : ∀ line ∈ code, line.Straight stores calls) : labelNames code = [] := by
  refine List.filterMap_eq_nil_iff.2 fun line there => ?_
  cases straight line there <;> rfl

/-- A part of the lowering whose code has new labels only. -/
def Labels (m : Lowering (List AssemblyLine)) : Prop :=
  ∀ p code q, Made m p code q → Numbered p.labels q.labels (labelNames code)

section Conditions

variable {s : Setting} {wanted : Bool} {label : String}

/-- Code without labels. -/
theorem labels_of_climbs {m : Lowering (List AssemblyLine)} {constants : Table String Value}
    {owner : String} (climbs : Climbs constants owner m)
    (none' : ∀ p code q, Made m p code q → labelNames code = []) : Labels m := by
  intro p code q made
  rw [none' p code q made]
  exact numbered_nil (climbs p code q made).1.labels

theorem labels_jumpTest (predefines : Predefines s.scope) (start : Nat) (formula : Formula)
    (spelled : formula.spelled = true) : Labels (s.jumpTest start wanted label formula) := by
  refine labels_of_climbs (climbs_jumpTest start wanted label formula spelled)
    fun p code q made => ?_
  have onValue : ∀ {code : List AssemblyLine}, Made (do
      let code ← (s.lower start formula).load
      return code ++ [jumpIf .jmpnz .jmpz wanted label]) p code q → labelNames code = [] := by
    intro code made
    simp only [made_bind, made_pure] at made
    obtain ⟨load, _, loaded, rfl, _⟩ := made
    rw [labelNames_append, labelNames_of_straight (loads_lower predefines loaded).straight]
    rfl
  unfold jumpTest at made
  split at made
  · split at made
    · simp only [made_bind, made_pure] at made
      obtain ⟨⟨before, cell⟩, _, operand, load, _, loaded, rfl, _⟩ := made
      rw [labelNames_append, labelNames_append,
        labelNames_of_straight (loads_lower_operand predefines operand).straight,
        labelNames_of_straight (loads_lower predefines loaded).straight]
      rfl
    · exact onValue made
  · split at made
    · split at made
      · split at made
        · obtain ⟨rfl, _⟩ := made_pure.1 made
          rfl
        · exact absurd made not_made_throw
      · exact onValue made
    · exact onValue made
  · exact onValue made

theorem labels_jumpEither {kind : String} {settled : Bool}
    {left right : Bool → String → Lowering (List AssemblyLine)}
    (word : isIdentifier ("__" ++ kind).toList = true)
    (onLeft : ∀ b label, Labels (left b label)) (onRight : ∀ b label, Labels (right b label)) :
    Labels (jumpEither kind settled left right wanted label) := by
  intro p code q made
  unfold jumpEither at made
  split at made
  · simp only [made_bind, made_pure] at made
    obtain ⟨first, middle, madeLeft, second, _, madeRight, rfl, rfl⟩ := made
    rw [labelNames_append]
    exact (onLeft _ _ p first middle madeLeft).append (onRight _ _ middle second _ madeRight)
  · simp only [made_bind, made_pure] at made
    obtain ⟨past, p', labelled, first, middle, madeLeft, second, _, madeRight, rfl, rfl⟩ := made
    rw [labelNames_append, labelNames_append]
    exact ((numbered_newLabel word labelled).append ((onLeft _ _ _ first middle madeLeft).append
      (onRight _ _ middle second _ madeRight))).perm List.perm_append_comm

/-- The labels of a condition are new. -/
theorem labels_jump (predefines : Predefines s.scope) (start : Nat) (formula : Formula)
    (wanted : Bool) (label : String) (spelled : formula.spelled = true) :
    Labels (s.jump start formula wanted label) := by
  cases constant : isConstant s.scope formula with
  | true =>
      refine labels_of_climbs (climbs_jump start formula wanted label spelled)
        fun p code q made => ?_
      rw [jump_known constant, made_bind] at made
      obtain ⟨value, middle, _, made⟩ := made
      obtain ⟨rfl, rfl⟩ := made_pure.1 made
      split <;> rfl
  | false =>
      cases single : isSingle formula with
      | true =>
          rw [jump_single constant single]
          exact labels_jumpTest predefines start formula spelled
      | false =>
          match formula with
          | .unary offset .not operand =>
              rw [jump_not constant]
              rw [Formula.spelled] at spelled
              exact labels_jump predefines start operand _ _ spelled
          | .binary offset .and left right =>
              rw [jump_and constant]
              rw [Formula.spelled, Bool.and_eq_true] at spelled
              exact labels_jumpEither (by decide)
                (fun b label => labels_jump predefines start left b label spelled.1)
                (fun b label => labels_jump predefines start right b label spelled.2)
          | .binary offset .or left right =>
              rw [jump_or constant]
              rw [Formula.spelled, Bool.and_eq_true] at spelled
              exact labels_jumpEither (by decide)
                (fun b label => labels_jump predefines start left b label spelled.1)
                (fun b label => labels_jump predefines start right b label spelled.2)

end Conditions

/-- A part of the lowering whose placed code has new labels only. -/
def LabelsPlaced (m : Lowering (List PlacedLine)) : Prop :=
  ∀ p code q, Made m p code q → Numbered p.labels q.labels (labelNames (code.map PlacedLine.line))

section Statements

variable {s : Setting}

theorem freeScratch_labels {depth : Nat} {p q : Pool} {a : Unit}
    (freed : Made (freeScratch depth) p a q) : p.labels = q.labels := by
  rw [← made_modify.1 freed]

theorem labels_assign (predefines : Predefines s.scope) (position : Position) (name : String)
    (op : Option AssignOp) (value : SourceFormula) (spelled : value.formula.spelled = true) :
    Labels (s.assign position name op value) :=
  labels_of_climbs (climbs_assign position name op value spelled) fun _ _ _ made =>
    labelNames_of_straight (loads_assign predefines made).straight

theorem labels_leave (predefines : Predefines s.scope) (position : Position)
    (value : Option SourceFormula) (spelled : AllSpelled value.toList) :
    Labels (s.leave position value) := by
  refine labels_of_climbs (climbs_leave position value spelled) fun p code q made => ?_
  unfold leave at made
  split at made
  · exact absurd made not_made_throw
  · cases value with
    | none =>
        simp only [made_bind, made_pure] at made
        obtain ⟨_, _, ⟨rfl, _⟩, rfl, _⟩ := made
        rfl
    | some value =>
        simp only [made_bind, made_pure] at made
        obtain ⟨load, _, loaded, rfl, _⟩ := made
        rw [labelNames_append, labelNames_of_straight (loads_lower predefines loaded).straight]
        rfl

theorem labels_call (predefines : Predefines s.scope) {name : String} {arguments : List Argument}
    {position : Position} (spelled : AllSpelled (arguments.map (·.value))) :
    Labels (s.call name (s.lowerCallArguments arguments) position false) := by
  refine labels_of_climbs (climbs_call (climbs_lowerCallArguments spelled)) fun p code q made =>
    labelNames_of_straight (loads_call predefines (fun a there => ?_) made).straight
  obtain ⟨argument, _, rfl⟩ := List.mem_map.1 there
  exact ⟨⟨_, by rw [Setting.formula, lower_formula]⟩, lowersTo_lower predefines _ _⟩

theorem labelNames_append_placed (a b : List PlacedLine) :
    labelNames ((a ++ b).map PlacedLine.line) =
      labelNames (a.map PlacedLine.line) ++ labelNames (b.map PlacedLine.line) := by
  rw [List.map_append, labelNames_append]

theorem labelNames_placed (line : Nat) (code : List AssemblyLine) :
    labelNames ((placed line code).map PlacedLine.line) = labelNames code := by
  rw [placed_lines]

mutual

theorem labels_statement (s : Setting) (predefines : Predefines s.scope) : ∀ statement : Statement,
    AllSpelled statement.formulas → LabelsPlaced (s.statement statement)
  | .assign position target op value, spelled => by
      intro p code q made
      rw [Statement.formulas, allSpelled_cons] at spelled
      rw [Setting.statement] at made
      simp only [made_bind, made_get, made_pure] at made
      obtain ⟨_, _, ⟨rfl, rfl⟩, text, p', assigned, _, _, freed, rfl, rfl⟩ := made
      rw [labelNames_placed, ← freeScratch_labels freed]
      exact labels_assign (s := { s with line := position.line }) predefines position target op
        value spelled.1 _ text p' assigned
  | .cond position branches otherwise, spelled => by
      intro p code q made
      rw [Statement.formulas, allSpelled_append] at spelled
      rw [Setting.statement] at made
      simp only [made_bind, made_get, made_pure] at made
      obtain ⟨_, _, ⟨rfl, rfl⟩, last, p₁, labelled, first, p₂, madeFirst, rest, p₃, madeRest, _, _,
        freed, rfl, rfl⟩ := made
      rw [labelNames_append_placed, labelNames_append_placed, labelNames_placed,
        ← freeScratch_labels freed]
      -- the label at the end was made first
      exact ((numbered_newLabel (by decide) labelled).append
        ((labels_branches { s with line := position.line } predefines _ last _ branches spelled.1
          p₁ first p₂ madeFirst).append
            (labels_block s predefines otherwise spelled.2 p₂ rest p₃ madeRest))).perm
              List.perm_append_comm
  | .loop position condition body, spelled => by
      intro p code q made
      rw [Statement.formulas, allSpelled_cons] at spelled
      rw [Setting.statement] at made
      simp only [made_bind, made_get, made_pure, jumpUnless] at made
      obtain ⟨_, _, ⟨rfl, rfl⟩, top, _, labelledTop, last, p₁, labelledLast, test, p₂, tested,
        inner, p₃, madeBody, _, _, freed, rfl, rfl⟩ := made
      rw [labelNames_append_placed, labelNames_append_placed, labelNames_placed, labelNames_placed,
        ← freeScratch_labels freed]
      have onTest := labels_jump (s := { s with line := position.line }) predefines condition.start
        condition.formula false last spelled.1 p₁ test p₂ tested
      have onBody := labels_block s predefines body spelled.2 p₂ inner p₃ madeBody
      -- the labels of the loop were made before those of the test and of the body
      have perm : ([last] ++ (labelNames test ++ labelNames (inner.map PlacedLine.line))).Perm
          (labelNames test ++ labelNames (inner.map PlacedLine.line) ++ [last]) :=
        List.perm_append_comm
      exact ((numbered_newLabel (by decide) labelledTop).append
        ((numbered_newLabel (by decide) labelledLast).append
          (onTest.append onBody))).perm (perm.cons top)
  | .call position name arguments, spelled => by
      intro p code q made
      rw [Statement.formulas] at spelled
      rw [Setting.statement] at made
      simp only [made_bind, made_get, made_pure] at made
      obtain ⟨_, _, ⟨rfl, rfl⟩, text, p', called, _, _, freed, rfl, rfl⟩ := made
      rw [labelNames_placed, ← freeScratch_labels freed]
      exact labels_call (s := { s with line := position.line }) predefines spelled _ text p' called
  | .return position value, spelled => by
      intro p code q made
      rw [Statement.formulas] at spelled
      rw [Setting.statement] at made
      simp only [made_bind, made_get, made_pure] at made
      obtain ⟨_, _, ⟨rfl, rfl⟩, text, p', left, _, _, freed, rfl, rfl⟩ := made
      rw [labelNames_placed, ← freeScratch_labels freed]
      exact labels_leave (s := { s with line := position.line }) predefines position value spelled _
        text p' left
  | .pass _, _ => by
      intro p code q made
      rw [Setting.statement, made_pure] at made
      obtain ⟨rfl, rfl⟩ := made
      exact numbered_nil (Nat.le_refl _)
  | .assembly position text, _ => by
      intro p code q made
      rw [Setting.statement, made_pure] at made
      obtain ⟨rfl, rfl⟩ := made
      exact numbered_nil (Nat.le_refl _)

theorem labels_branches (s : Setting) (predefines : Predefines s.scope) (depth : Nat)
    (last : String) (ends : Bool) : ∀ branches : List (SourceFormula × List Statement),
      AllSpelled (Statement.branchFormulas branches) →
        LabelsPlaced (s.branches depth last ends branches)
  | [], _ => by
      intro p code q made
      rw [Setting.branches, made_pure] at made
      obtain ⟨rfl, rfl⟩ := made
      exact numbered_nil (Nat.le_refl _)
  | (condition, body) :: rest, spelled => by
      intro p code q made
      rw [Statement.branchFormulas, allSpelled_cons, allSpelled_append] at spelled
      obtain ⟨onCondition, onBody, onRest⟩ := spelled
      rw [Setting.branches] at made
      split at made
      · simp only [made_bind, made_pure, jumpUnless] at made
        obtain ⟨_, p₁, freed, test, p₂, tested, inner, p₃, madeBody, rfl, rfl⟩ := made
        rw [labelNames_append_placed, labelNames_placed, freeScratch_labels freed]
        exact (labels_jump predefines condition.start condition.formula false last onCondition
          p₁ test p₂ tested).append (labels_block s predefines body onBody p₂ inner p₃ madeBody)
      · simp only [made_bind, made_pure, jumpUnless] at made
        obtain ⟨next, _, labelled, _, p₁, freed, test, p₂, tested, inner, p₃, madeBody, more, p₄,
          madeMore, rfl, rfl⟩ := made
        have onTest := labels_jump predefines condition.start condition.formula false next
          onCondition p₁ test p₂ tested
        have onBody := labels_block s predefines body onBody p₂ inner p₃ madeBody
        have onMore := labels_branches s predefines depth last ends rest onRest p₃ more p₄ madeMore
        have labelled' := numbered_newLabel (by decide) labelled
        rw [freeScratch_labels freed] at labelled'
        rw [labelNames_append_placed, labelNames_append_placed, labelNames_append_placed,
          labelNames_placed, labelNames_placed]
        -- the label of the next branch was made first
        have front := (labelled'.append (onTest.append onBody)).perm List.perm_append_comm
        exact front.append onMore

/-- **The labels of statements are new.** -/
theorem labels_block (s : Setting) (predefines : Predefines s.scope) :
    ∀ statements : List Statement, AllSpelled (Statement.blockFormulas statements) →
      LabelsPlaced (s.block statements)
  | [], _ => by
      intro p code q made
      rw [Setting.block, made_pure] at made
      obtain ⟨rfl, rfl⟩ := made
      exact numbered_nil (Nat.le_refl _)
  | first :: rest, spelled => by
      intro p code q made
      rw [Statement.blockFormulas, allSpelled_append] at spelled
      simp only [Setting.block, made_bind, made_pure] at made
      obtain ⟨one, middle, madeFirst, more, q', madeRest, rfl, rfl⟩ := made
      rw [labelNames_append_placed]
      exact (labels_statement s predefines first spelled.1 p one middle madeFirst).append
        (labels_block s predefines rest spelled.2 middle more q' madeRest)

end

end Statements

/-! ## Labels of a program -/

/-- The labels of procedures are those of the procedures and new ones. -/
theorem labels_proceduresCode {items : List Item} {declared : Declared} {s : Setting}
    (stands : declared.Stands items) (scope : s.scope = declared.scope) :
    ∀ {procedures : List Procedure} {a b : Pool} {code : List PlacedLine},
    (∀ p ∈ procedures, AllSpelled (Statement.blockFormulas p.body)) →
    Made (proceduresCode s procedures) a code b →
      ∃ new, Numbered a.labels b.labels new ∧
        (labelNames (code.map PlacedLine.line)).Perm (procedures.map Procedure.name ++ new)
  | [], a, b, code, _, made => by
      obtain ⟨rfl, rfl⟩ := made_pure.1 made
      exact ⟨[], numbered_nil (Nat.le_refl _), .refl _⟩
  | p :: rest, a, b, code, spelled, made => by
      rw [proceduresCode] at made
      simp only [made_bind, made_pure] at made
      obtain ⟨head, middle, first, tail, _, onward, rfl, rfl⟩ := made
      obtain ⟨here, others⟩ := List.forall_mem_cons.1 spelled
      obtain ⟨more, numbered, perm⟩ := labels_proceduresCode stands scope others onward
      simp only [procedureCode, made_bind, made_pure, made_liftM] at first
      obtain ⟨inner, _, ⟨parameters, rfl⟩, body, _, block, rfl, rfl⟩ := first
      rw [scope] at parameters
      have own := labels_block { s with scope := inner, procedure := p.name }
        (context_procedure stands parameters).predefines p.body here _ body _ block
      refine ⟨labelNames (body.map PlacedLine.line) ++ more, own.append numbered, ?_⟩
      rw [labelNames_append_placed, labelNames_append_placed, labelNames_append_placed,
        labelNames_placed]
      -- the end of a procedure has no label
      have behind : (labelNames (body.map PlacedLine.line) ++
          labelNames (tail.map PlacedLine.line)).Perm
            (rest.map Procedure.name ++ (labelNames (body.map PlacedLine.line) ++ more)) :=
        (perm.append_left _).trans (List.perm_append_comm_assoc ..)
      split <;> exact (by simpa [labelNames, placed] using behind)

section Compilation

variable {source : String} {items : List Item} {declared : Declared} {code : List PlacedLine}
  {pool : Pool} (compilation : Compilation source items declared code pool)
include compilation

/-- **The labels of compiled code** are those of the procedures and others, which all
differ. -/
theorem Compilation.labels : ∃ made, made.Nodup ∧
    (∀ label ∈ made, isIdentifier label.toList = true) ∧
    (labelNames (code.map PlacedLine.line)).Perm
      ((items.filterMap Item.procedure?).map Procedure.name ++ made) := by
  obtain ⟨main, procedures, middle, onMain, onProcedures, rfl⟩ := compilation.pieces
  have own := labels_block (mainSetting source declared)
    (context_program compilation.stands).predefines _ compilation.spelled _ main middle onMain
  obtain ⟨more, numbered, perm⟩ := labels_proceduresCode compilation.stands rfl
    (fun p there => compilation.spelled_body (mem_procedures.1 there)) onProcedures
  have both := own.append numbered
  refine ⟨_, both.nodup, fun label there => both.isIdentifier there, ?_⟩
  have ends : labelNames ((mainEnd items main).map PlacedLine.line) = [] := by
    unfold mainEnd
    split
    · rfl
    · split <;> rfl
  rw [labelNames_append_placed, labelNames_append_placed, ends, List.append_nil]
  exact (perm.append_left _).trans (List.perm_append_comm_assoc ..)

end Compilation

/-! ## Cells -/

theorem cellNames_append_placed (a b : List PlacedLine) :
    cellNames ((a ++ b).map PlacedLine.line) =
      cellNames (a.map PlacedLine.line) ++ cellNames (b.map PlacedLine.line) := by
  rw [List.map_append, cellNames_append]

/-- Cells of folded values in a row. -/
theorem cellNames_literals {more : List PlacedLine} {offset : Nat}
    (literal : ∀ (j : Nat) (placed : PlacedLine), more[j]? = some placed →
      ∃ fields, placed.line = .cell ("__literal_" ++ toString (offset + j)) fields) :
    cellNames (more.map PlacedLine.line) =
      (List.range' offset more.length).map fun i => "__literal_" ++ toString i := by
  induction more generalizing offset with
  | nil => rfl
  | cons placed rest ih =>
      obtain ⟨_, line⟩ := literal 0 placed rfl
      have onward := @ih (offset + 1) fun j other found => by
        obtain ⟨fields, line⟩ := literal (j + 1) other found
        exact ⟨fields, by rw [line, Nat.add_right_comm, Nat.add_assoc]⟩
      rw [List.map_cons, List.length_cons, List.range'_succ, List.map_cons, ← onward, line]
      rfl

/-- The names of scratch cells up to their numbers. -/
def scratchHead (owner : String) : String :=
  if owner.isEmpty then "__temp" else "__" ++ owner ++ "_temp"

theorem scratchName_eq (owner : String) (i : Nat) :
    scratchName owner i = scratchHead owner ++ "_" ++ toString i := by
  unfold scratchName scratchHead
  split <;> rw [← String.toList_inj] <;> simp

theorem scratchHead_ne {owner : String} : "__temp" ≠ "__" ++ owner ++ "_temp" := by
  intro same
  have length := congrArg (fun s : String => s.toList.length) same
  simp only [String.toList_append, List.length_append] at length
  exact absurd length (by rw [show "__temp".toList.length = 6 from rfl,
    show "__".toList.length = 2 from rfl, show "_temp".toList.length = 5 from rfl]; omega)

theorem scratchHead_injective {a b : String} (same : scratchHead a = scratchHead b) : a = b := by
  unfold scratchHead at same
  split at same <;> rename_i onA <;> split at same <;> rename_i onB
  · rw [String.isEmpty_iff.1 onA, String.isEmpty_iff.1 onB]
  · exact absurd same scratchHead_ne
  · exact absurd same.symm scratchHead_ne
  · exact (String.append_right_inj _).1 ((String.append_left_inj _).1 same)

/-- The letter at the end tells the name of a scratch cell from that of a literal. -/
theorem scratchHead_ne_literal (owner : String) : scratchHead owner ≠ "__literal" := by
  have last : (scratchHead owner).toList.getLast? = some 'p' := by
    unfold scratchHead
    split
    · rfl
    · rw [String.toList_append, List.getLast?_append]
      rfl
  intro same
  rw [same] at last
  exact absurd last (by decide)

theorem isIdentifierPart_of_start {c : Char} (starts : isIdentifierStart c = true) :
    isIdentifierPart c = true := by
  rw [isIdentifierStart, Bool.or_eq_true] at starts
  rw [isIdentifierPart, Char.isAlphanum, Bool.or_eq_true, Bool.or_eq_true]
  exact starts.imp_left .inl

theorem isIdentifier_parts {cs : List Char} (identifier : isIdentifier cs = true) :
    ∀ c ∈ cs, isIdentifierPart c = true := by
  cases cs with
  | nil => cases identifier
  | cons first rest =>
      rw [isIdentifier, Bool.and_eq_true] at identifier
      exact List.forall_mem_cons.2
        ⟨isIdentifierPart_of_start identifier.1, List.all_eq_true.1 identifier.2⟩

theorem isIdentifier_scratchHead {owner : String}
    (named : owner = "" ∨ isIdentifier owner.toList = true) :
    isIdentifier (scratchHead owner).toList = true := by
  unfold scratchHead
  split
  · decide
  · rename_i some'
    have identifier := named.resolve_left fun none' => some' (String.isEmpty_iff.2 none')
    rw [String.toList_append, String.toList_append]
    have word : "_temp_".toList.all isIdentifierPart = true := by decide
    exact isIdentifier_append
      (isIdentifier_append (by decide) (isIdentifier_parts identifier))
      (List.all_eq_true.1 word)

theorem cellNames_scratchCells (scratch : Table String Nat) :
    cellNames ((scratchCells scratch).map PlacedLine.line) =
      scratch.entries.flatMap fun entry => (List.range entry.2).map (scratchName entry.1) := by
  simp only [cellNames, scratchCells, List.map_flatMap, List.filterMap_flatMap, List.map_map,
    List.filterMap_map]
  refine List.flatMap_congr fun entry _ => ?_
  rw [← List.filterMap_eq_map]
  rfl

/-- Scratch cells all differ. -/
theorem nodup_scratchCells (scratch : Table String Nat) :
    (cellNames ((scratchCells scratch).map PlacedLine.line)).Nodup := by
  have apart : ∀ {a b : String} {i j : Nat}, scratchName a i = scratchName b j → a = b ∧ i = j := by
    intro a b i j same
    rw [scratchName_eq, scratchName_eq] at same
    exact (append_nat_injective same).imp_left scratchHead_injective
  rw [cellNames_scratchCells, List.nodup_flatMap]
  refine ⟨fun entry _ => ?_, ?_⟩
  · exact List.nodup_range.map fun i j same => (apart same).2
  · refine (List.pairwise_map.1 scratch.nodup).imp fun differ => ?_
    intro name inFirst inSecond
    obtain ⟨_, _, rfl⟩ := List.mem_map.1 inFirst
    obtain ⟨_, _, same⟩ := List.mem_map.1 inSecond
    exact differ (apart same).1.symm

section Compilation

variable {source : String} {items : List Item} {declared : Declared} {code : List PlacedLine}
  {pool : Pool} (compilation : Compilation source items declared code pool)
include compilation

/-- Scratch cells have identifiers for names, if the procedures have. -/
theorem Compilation.isIdentifier_scratch
    (procedures : ∀ p, .procedure p ∈ items → isIdentifier p.name.toList = true) :
    ∀ cell ∈ cellNames ((scratchCells pool.scratch).map PlacedLine.line),
      isIdentifier cell.toList = true := by
  intro cell there
  obtain ⟨fields, line⟩ := Ppp.mem_cellNames.1 there
  obtain ⟨placed, inCells, same⟩ := List.mem_map.1 line
  obtain ⟨owner, i, taken, rfl⟩ := mem_scratchCells.1 inCells
  obtain ⟨rfl, _⟩ := AssemblyLine.cell.inj same
  rw [scratchName_eq]
  refine isIdentifier_append_nat (isIdentifier_scratchHead ?_) i
  refine (compilation.adds.2 owner fun none' => ?_).imp_right fun ⟨p, there, named⟩ =>
    named ▸ procedures p there
  rw [none'] at taken
  exact Nat.not_lt_zero i taken

/-- **The cells of compiled code** are those of the source and others, which all differ.
The others have the names of procedures in them. -/
theorem Compilation.cells : ∃ made, made.Nodup ∧
    ((∀ p, .procedure p ∈ items → isIdentifier p.name.toList = true) →
      ∀ cell ∈ made, isIdentifier cell.toList = true) ∧
    cellNames (linesOf pool code) = cellNames (declared.lines.map PlacedLine.line) ++ made := by
  obtain ⟨more, declarations, folded⟩ := compilation.folded
  have literals : cellNames (more.map PlacedLine.line) =
      (List.range' 0 more.length).map fun i => "__literal_" ++ toString i := by
    refine cellNames_literals fun j placed found => ?_
    obtain ⟨magnitude, unit, _, line⟩ := folded j placed found
    exact ⟨_, by rw [line, Nat.zero_add]⟩
  refine ⟨cellNames (more.map PlacedLine.line) ++
    cellNames ((scratchCells pool.scratch).map PlacedLine.line), ?_,
    fun procedures cell there => ?_, ?_⟩
  · refine List.nodup_append.2 ⟨?_, nodup_scratchCells _, fun x isLiteral y isScratch same => ?_⟩
    · rw [literals]
      exact (List.nodup_range' ..).map fun i j same =>
        (append_nat_injective (x := "__literal") (y := "__literal") same).2
    · rw [literals] at isLiteral
      rw [cellNames_scratchCells, List.mem_flatMap] at isScratch
      obtain ⟨i, _, rfl⟩ := List.mem_map.1 isLiteral
      obtain ⟨entry, _, inOwn⟩ := isScratch
      obtain ⟨j, _, rfl⟩ := List.mem_map.1 inOwn
      rw [scratchName_eq] at same
      exact scratchHead_ne_literal entry.1
        (append_nat_injective (x := "__literal") same).1.symm
  · rcases List.mem_append.1 there with isLiteral | isScratch
    · rw [literals] at isLiteral
      obtain ⟨i, _, rfl⟩ := List.mem_map.1 isLiteral
      exact @isIdentifier_append_nat "__literal" (by decide) i
    · exact compilation.isIdentifier_scratch procedures cell isScratch
  · rw [linesOf, cellNames_append_placed, cellNames_append_placed, compilation.cellNames_code,
      List.append_nil, ← declarations, cellNames_append_placed, List.append_assoc]

end Compilation

end PulseSequencer.Ppp
