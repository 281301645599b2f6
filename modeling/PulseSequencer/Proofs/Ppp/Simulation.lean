import PulseSequencer.Proofs.Ppp.Computation

/-
# PulseSequencer.Proofs.Ppp.Simulation -- the code of a source does what it says

Both directions are proved for code that stands among the lines of a program.  What a
source executes, its code runs to its end: `runs_of_executes`, by induction on the
execution.  Where assembled code runs to its end, the source is executed to its end:
`executes_block`, by induction on the steps that are left and, within, on the source.
`loop_code` and `branches_code` tell what both need of loops and branchings.
-/

namespace PulseSequencer.Ppp

open PulseSequencer.Machine

set_option autoImplicit false

/-! ## Stores -/

/-- A source ends in one store at most. -/
theorem Executes.unique {r : Reading} {part : Part} {store a b : Store}
    (first : Executes r part store a) (second : Executes r part store b) : a = b := by
  induction first generalizing b with
  | assign read =>
      cases second with
      | assign read' => rw [Option.some.inj (read.symm.trans read')]
  | update read =>
      cases second with
      | update read' => rw [Option.some.inj (read.symm.trans read')]
  | pass =>
      cases second
      rfl
  | cond _ ih =>
      cases second with
      | cond second => exact ih second
  | leave fails =>
      cases second with
      | leave => rfl
      | «repeat» holds => exact absurd (fails.symm.trans holds) (by simp)
  | «repeat» holds _ _ once again =>
      cases second with
      | leave fails => exact absurd (fails.symm.trans holds) (by simp)
      | «repeat» _ body rest =>
          obtain rfl := once body
          exact again rest
  | done =>
      cases second
      rfl
  | next _ _ once onward =>
      cases second with
      | next head rest =>
          obtain rfl := once head
          exact onward rest
  | taken holds _ ih =>
      cases second with
      | taken _ second => exact ih second
      | skipped fails => exact absurd (fails.symm.trans holds) (by simp)
  | skipped fails _ ih =>
      cases second with
      | taken holds => exact absurd (fails.symm.trans holds) (by simp)
      | skipped _ second => exact ih second
  | otherwise _ ih =>
      cases second with
      | otherwise second => exact ih second

section Lines

variable {s : Setting} {lines : List AssemblyLine} {final : Pool}

/-- The line of a statement is of no concern to the image. -/
theorem Image.atLine (image : Image s lines final) (line : Nat) :
    Image { s with line } lines final := { image with }

theorem Holds.atLine {store : Store} {t : State String} (holds : Holds s final store t)
    (line : Nat) : Holds { s with line } final store t := { holds with }

/-- A variable that is written holds its new word, and everything else stays. -/
theorem Holds.set {store : Store} {t : State String} (image : Image s lines final)
    (holds : Holds s final store t) {kind : DeclarationKind} {slot : Nat} {name cell : String}
    (found : s.scope.lookup name = some (.cell kind slot cell)) :
    Holds s final (store.set name t.w) (t.store name) where
  cell other kind' slot' cell' found' := by
    by_cases here : other = name
    · subst here
      rw [State.store_same, Store.set, if_pos rfl]
    · rw [State.store_other t here, Store.set, if_neg here]
      exact holds.cell other kind' slot' cell' found'
  literal formula evaluation magnitude unit other evaluated stored found' := by
    have differs : other ≠ name := by
      rintro rfl
      exact (image.literal _ other found').2.2 kind slot cell found
    rw [State.store_other t differs]
    exact holds.literal formula evaluation magnitude unit other evaluated stored found'

/-- The instruction of an assignment such as `+=` performs it on W and its operand. -/
theorem perform_operation (alu : Alu) (op : AssignOp) (cell : String) (t : State String) :
    op.opcode.operandKind = .data ∧ alu.perform op.opcode cell t =
      some ({ t with w := Reading.operation alu op t.w (t.memory cell) }, false) := by
  cases op <;> exact ⟨rfl, rfl⟩

end Lines

/-! ## One level of the code -/

section Code

variable {alu : Alu} {s : Setting} {lines : List AssemblyLine} {final : Pool}
  (image : Image s lines final)
include image

/-- An assignment reads its value, and ends in the store that is written. -/
theorem assign_code {position : Position} {name : String} {op : Option AssignOp}
    {value : SourceFormula} {p q : Pool} {code : List PlacedLine} {i : Nat} {t : State String}
    {store : Store} (plain : plainFormula s.known value.formula = true)
    (made : Made (s.statement (.assign position name op value)) p code q)
    (extended : q.Extends s.constants s.procedure final)
    (there : Placed lines i (code.map PlacedLine.line)) (holds : Holds s final store t) :
    ∃ next u, Executes (s.reading alu) (.statement (.assign position name op value)) store next ∧
      Reaches (lineStep alu lines) (i, t) (i + code.length, u) ∧ Holds s final next u := by
  rw [Setting.statement] at made
  simp only [made_bind, made_get, made_pure, Setting.assign] at made
  obtain ⟨_, _, ⟨rfl, rfl⟩, text, p', ⟨cell, _, targeted, made⟩, _, _, freed, rfl, rfl⟩ := made
  obtain ⟨rfl, kind, slot, found⟩ := Setting.made_target targeted
  have found' : s.scope.lookup name = some (.cell kind slot cell) := found
  obtain rfl := image.named name kind slot cell found'
  obtain ⟨declared, _⟩ := image.cell cell kind slot cell found'
  have extended' : p'.Extends s.constants s.procedure final :=
    (Setting.grows_freeScratch _ _ _ _ freed).trans extended
  have computes := computes_lower alu (image.atLine position.line) value.start
    value.formula plain
  have holds' := holds.atLine position.line
  rw [placed_lines] at there
  rw [placed_length]
  cases op with
  | none =>
      simp only [made_bind, made_pure] at made
      obtain ⟨before, _, loaded, rfl, rfl⟩ := made
      obtain ⟨w, u, read, reaches, inW, frame⟩ :=
        computes.loads _ before _ loaded extended' i t store there.left holds'
      have kept := holds'.frame (image.atLine position.line) frame
      refine ⟨_, u.store cell, .assign read, ?_, ?_⟩
      · rw [List.length_append]
        exact reaches.trans (.single (lineStep_cell rfl there.right.getElem? declared rfl))
      · rw [← inW]
        exact ((kept.set (image.atLine position.line) found).atLine s.line)
  | some op =>
      simp only [made_bind, made_pure] at made
      obtain ⟨⟨before, operand⟩, _, provided, rfl, rfl⟩ := made
      obtain ⟨w, u, read, reaches, operandDeclared, frame, keeps⟩ :=
        computes.provides _ before operand _ provided extended' i t store there.left holds'
      have kept := holds'.frame (image.atLine position.line) frame
      obtain rfl : u.memory operand = w := keeps u (.refl u)
      have same : u.memory cell = store cell := kept.cell cell kind slot cell found
      obtain ⟨opKind, performed⟩ :=
        perform_operation alu op operand { u with w := u.memory cell }
      have loaded : lineStep alu lines (i + before.length, u) =
          some (i + before.length + 1, { u with w := u.memory cell }) :=
        lineStep_cell rfl there.right.getElem? declared rfl
      have computed := lineStep_cell opKind there.right.tail.getElem? operandDeclared performed
      have written := (kept.frame (image.atLine position.line) (.of_same rfl : Frame final 0 u
        { u with w := Reading.operation alu op (u.memory cell) (u.memory operand) })).set
          (image.atLine position.line) found
      refine ⟨_, _, .update read, ?_, by rw [← same]; exact written.atLine s.line⟩
      rw [List.length_append, ← Nat.add_assoc]
      refine reaches.trans (.head loaded (.head computed (.single ?_)))
      exact lineStep_cell rfl there.right.tail.tail.getElem? declared rfl

variable (alu) in
/-- The code of a loop: the test at its top leads to the code of the body or past the loop,
and behind the body comes a jump to the top. -/
theorem loop_code {position : Position} {condition : SourceFormula} {body : List Statement}
    {p q : Pool} {code : List PlacedLine} {i : Nat}
    (plain : plainFormula s.known condition.formula = true)
    (plainBody : plainBlock s.known body = true)
    (made : Made (s.statement (.loop position condition body)) p code q)
    (extended : q.Extends s.constants s.procedure final)
    (there : Placed lines i (code.map PlacedLine.line)) :
    ∃ k inner p' q', Made (s.block body) p' inner q' ∧ q'.Extends s.constants s.procedure final ∧
      Placed lines k (inner.map PlacedLine.line) ∧
      (∀ t store, Holds s final store t → ∃ b u,
        (s.reading alu).truth store condition.formula = some b ∧ Holds s final store u ∧
          Reaches (lineStep alu lines) (i, t) (if b then k else i + code.length, u)) ∧
      ∀ t, ∃ label, lines[k + inner.length]? = some (.jump label) ∧
        lineStep alu lines (k + inner.length, t) = some (i, t) := by
  rw [Setting.statement] at made
  simp only [made_bind, made_get, made_pure, Setting.jumpUnless] at made
  obtain ⟨_, _, ⟨rfl, rfl⟩, top, _, _, last, p₁, _, test, p₂, tested, inner, q', madeBody, _, _,
    freed, rfl, rfl⟩ := made
  have extended' : q'.Extends s.constants s.procedure final :=
    (Setting.grows_freeScratch _ _ _ _ freed).trans extended
  have onTest : p₂.Extends s.constants s.procedure final :=
    (Setting.grows_block s body (Setting.allSpelled_of_plainBlock _ plainBody) p₂ inner q'
      madeBody).trans extended'
  rw [List.map_append, List.map_append, placed_lines, placed_lines] at there
  have atTop : lines[i]? = some (.label top) := there.left.left.getElem?
  have behind : Placed lines (i + (test.length + 1) + inner.length) [.jump top, .label last] := by
    simpa [Nat.add_assoc, Nat.add_comm, Nat.add_left_comm] using there.right
  have atLast := behind.tail.getElem?
  refine ⟨i + (test.length + 1), inner, p₂, q', madeBody, extended', ?_, fun t store holds => ?_,
    fun t => ⟨top, behind.getElem?, lineStep_jump rfl image.labels behind.getElem? atTop rfl⟩⟩
  · simpa using there.left.right
  · obtain ⟨b, u, truth, reaches, frame⟩ :=
      decides_jump alu (image.atLine position.line) condition.start condition.formula
        plain false last p₁ test p₂ tested onTest (i + 1) _ t store there.left.left.tail atLast
        (holds.atLine position.line)
    have kept := (holds.atLine position.line).frame (image.atLine position.line) frame
    refine ⟨b, u, truth, kept.atLine s.line, ?_⟩
    have passed : lineStep alu lines (i, t) = some (i + 1, t) := lineStep_label atTop
    cases b with
    | true =>
        rw [if_neg (by simp), Nat.add_assoc, Nat.add_comm 1] at reaches
        exact .head passed reaches
    | false =>
        rw [if_pos rfl] at reaches
        have out := Reaches.head passed (reaches.trans (.single (lineStep_label atLast)))
        simpa [Nat.add_assoc, Nat.add_comm, Nat.add_left_comm] using out

variable (alu) in
/-- The code of branches, in front of the code for `else` and the label at the end: the
first test leads to the code of its body, which goes to the end, or to the other branches. -/
theorem branches_code {depth : Nat} {last : String} {condition : SourceFormula}
    {body : List Statement} {rest : List (SourceFormula × List Statement)} {p q : Pool}
    {code : List PlacedLine} {other : List AssemblyLine} {i : Nat} {ends : Bool}
    (plain : plainFormula s.known condition.formula = true)
    (plainBody : plainBlock s.known body = true) (plainRest : plainBranches s.known rest = true)
    (none' : ends = true → other = [])
    (made : Made (s.branches depth last ends ((condition, body) :: rest)) p code q)
    (extended : q.Extends s.constants s.procedure final)
    (there : Placed lines i (code.map PlacedLine.line ++ other ++ [.label last])) :
    ∃ k inner p' q', Made (s.block body) p' inner q' ∧ q'.Extends s.constants s.procedure final ∧
      Placed lines k (inner.map PlacedLine.line) ∧
      (∃ m more p'', Made (s.branches depth last ends rest) p'' more q ∧
        Placed lines m (more.map PlacedLine.line ++ other ++ [.label last]) ∧
        m + more.length + other.length = i + code.length + other.length ∧
        ∀ t store, Holds s final store t → ∃ b u,
          (s.reading alu).truth store condition.formula = some b ∧ Holds s final store u ∧
            Reaches (lineStep alu lines) (i, t) (if b then k else m, u)) ∧
      ∀ t, Reaches (lineStep alu lines) (k + inner.length, t)
        (i + code.length + other.length, t) := by
  rw [Setting.branches] at made
  have atLast : lines[i + code.length + other.length]? = some (.label last) := by
    simpa [Nat.add_assoc] using there.right.getElem?
  split at made
  · rename_i alone
    obtain rfl := none' alone.1
    obtain rfl := List.isEmpty_iff.1 alone.2
    simp only [made_bind, made_pure, Setting.jumpUnless] at made
    obtain ⟨_, p₁, _, test, p₂, tested, inner, p₃, madeBody, rfl, rfl⟩ := made
    have onTest := (Setting.grows_block s body (Setting.allSpelled_of_plainBlock _ plainBody) p₂
      inner p₃ madeBody).trans extended
    rw [List.map_append, placed_lines, List.append_nil] at there
    refine ⟨i + test.length, inner, p₂, p₃, madeBody, extended, there.left.right,
      ⟨i + (placed s.line test ++ inner).length, [], p₃, ?_, ?_, by simp, fun t store holds => ?_⟩,
      fun t => ?_⟩
    · rw [Setting.branches]
      exact made_pure.2 ⟨rfl, rfl⟩
    · simpa using there.right
    · obtain ⟨b, u, truth, reaches, frame⟩ := decides_jump alu image condition.start
        condition.formula plain false last p₁ test p₂ tested onTest i _ t store there.left.left
        atLast holds
      refine ⟨b, u, truth, holds.frame image frame, ?_⟩
      cases b with
      | true => exact reaches
      | false => exact reaches
    · simpa [Nat.add_assoc] using Reaches.refl _
  · simp only [made_bind, made_pure, Setting.jumpUnless] at made
    obtain ⟨next, _, _, _, p₁, _, test, p₂, tested, inner, p₃, madeBody, more, _, madeMore,
      rfl, rfl⟩ := made
    have onBody : p₃.Extends s.constants s.procedure final :=
      (Setting.grows_branches s depth last ends rest
        (Setting.allSpelled_of_plainBranches _ plainRest) p₃ more _ madeMore).trans extended
    have onTest := (Setting.grows_block s body (Setting.allSpelled_of_plainBlock _ plainBody) p₂
      inner _ madeBody).trans onBody
    simp only [List.map_append, placed_lines] at there
    have between : Placed lines (i + test.length + inner.length) [.jump last, .label next] := by
      simpa [Nat.add_assoc] using there.left.left.left.right
    refine ⟨i + test.length, inner, p₂, p₃, madeBody, onBody, there.left.left.left.left.right,
      ⟨i + test.length + inner.length + 2, more, p₃, madeMore, ?_, ?_, fun t store holds => ?_⟩,
      fun t => ?_⟩
    · have behind := there
      rw [List.append_assoc, List.append_assoc] at behind
      simpa [Nat.add_assoc] using behind.right
    · simp [Nat.add_assoc, Nat.add_comm, Nat.add_left_comm]
    · obtain ⟨b, u, truth, reaches, frame⟩ := decides_jump alu image condition.start
        condition.formula plain false next p₁ test p₂ tested onTest i _ t store
        there.left.left.left.left.left between.tail.getElem? holds
      refine ⟨b, u, truth, holds.frame image frame, ?_⟩
      cases b with
      | true => exact reaches
      | false => exact reaches.trans (.single (lineStep_label between.tail.getElem?))
    · exact .single (lineStep_jump rfl image.labels between.getElem? atLast rfl)

omit image in
/-- The code of a branching is that of its branches and of `else`, and a label. -/
theorem made_cond {position : Position} {branches : List (SourceFormula × List Statement)}
    {otherwise : List Statement} {p q : Pool} {code : List PlacedLine}
    (made : Made (s.statement (.cond position branches otherwise)) p code q)
    (extended : q.Extends s.constants s.procedure final)
    (plain : plainBlock s.known otherwise = true) :
    ∃ depth last first rest p₁ p₂ p₃,
      Made ({ s with line := position.line }.branches depth last otherwise.isEmpty branches) p₁
        first p₂ ∧
      Made (s.block otherwise) p₂ rest p₃ ∧ p₂.Extends s.constants s.procedure final ∧
      p₃.Extends s.constants s.procedure final ∧
      code = first ++ rest ++ placed position.line [.label last] := by
  rw [Setting.statement] at made
  simp only [made_bind, made_get, made_pure] at made
  obtain ⟨_, _, ⟨rfl, rfl⟩, last, p₁, _, first, p₂, madeFirst, rest, p₃, madeRest, _, _, freed,
    rfl, rfl⟩ := made
  have extended' : p₃.Extends s.constants s.procedure final :=
    (Setting.grows_freeScratch _ _ _ _ freed).trans extended
  exact ⟨_, last, first, rest, p₁, p₂, p₃, madeFirst, madeRest,
    (Setting.grows_block s otherwise (Setting.allSpelled_of_plainBlock _ plain) p₂ rest p₃
      madeRest).trans extended', extended', rfl⟩

end Code

/-! ## What is executed is run -/

/-- What a part of a source asks of its code. -/
def Part.Runs (alu : Alu) (s : Setting) (lines : List AssemblyLine) (final : Pool) :
    Part → Store → Store → Prop
  | .statement one, store, next => plainStatement s.known one = true →
      ∀ line p code q, Made ({ s with line }.statement one) p code q →
        q.Extends s.constants s.procedure final → ∀ i t,
          Placed lines i (code.map PlacedLine.line) → Holds s final store t →
          ∃ u, Reaches (lineStep alu lines) (i, t) (i + code.length, u) ∧ Holds s final next u
  | .block many, store, next => plainBlock s.known many = true →
      ∀ line p code q, Made ({ s with line }.block many) p code q →
        q.Extends s.constants s.procedure final → ∀ i t,
          Placed lines i (code.map PlacedLine.line) → Holds s final store t →
          ∃ u, Reaches (lineStep alu lines) (i, t) (i + code.length, u) ∧ Holds s final next u
  | .branches several last', store, next =>
      plainBranches s.known several = true → plainBlock s.known last' = true →
      ∀ line depth last p first q,
        Made ({ s with line }.branches depth last last'.isEmpty several) p first q →
        q.Extends s.constants s.procedure final → ∀ line' p' rest q',
          Made ({ s with line := line' }.block last') p' rest q' →
          q'.Extends s.constants s.procedure final → ∀ i t,
            Placed lines i (first.map PlacedLine.line ++ rest.map PlacedLine.line ++
              [.label last]) → Holds s final store t →
            ∃ u, Reaches (lineStep alu lines) (i, t) (i + first.length + rest.length, u) ∧
              Holds s final next u

section Runs

variable {alu : Alu} {s : Setting} {lines : List AssemblyLine} {final : Pool}

theorem block_of_isEmpty {statements : List Statement} {p q : Pool} {code : List PlacedLine}
    (made : Made (s.block statements) p code q) (empty : statements.isEmpty = true) :
    code.map PlacedLine.line = [] := by
  obtain rfl := List.isEmpty_iff.1 empty
  rw [Setting.block] at made
  rw [← (made_pure.1 made).1]
  rfl

/-- **What a source executes, its code runs to its end.** -/
theorem runs_of_executes (image : Image s lines final) {part : Part} {store next : Store}
    (executes : Executes (s.reading alu) part store next) :
    part.Runs alu s lines final store next := by
  induction executes with
  | assign read =>
      intro plain line p code q made extended i t there holds
      obtain ⟨next, u, executed, reaches, held⟩ :=
        assign_code (image.atLine line) plain made extended there (holds.atLine line)
      exact ⟨u, reaches, executed.unique (.assign read) ▸ held.atLine s.line⟩
  | update read =>
      intro plain line p code q made extended i t there holds
      obtain ⟨next, u, executed, reaches, held⟩ :=
        assign_code (image.atLine line) plain made extended there (holds.atLine line)
      exact ⟨u, reaches, executed.unique (.update read) ▸ held.atLine s.line⟩
  | pass =>
      intro _ line p code q made _ i t _ holds
      rw [Setting.statement, made_pure] at made
      obtain ⟨rfl, rfl⟩ := made
      exact ⟨t, .refl _, holds⟩
  | cond _ ih =>
      intro plain line p code q made extended i t there holds
      rw [plainStatement, Bool.and_eq_true] at plain
      obtain ⟨depth, last, first, rest, p₁, p₂, p₃, madeFirst, madeRest, extended₂, extended₃,
        rfl⟩ := made_cond made extended plain.2
      rw [List.map_append, List.map_append, placed_lines] at there
      obtain ⟨u, reaches, held⟩ := ih plain.1 plain.2 _ depth last p₁ first p₂ madeFirst extended₂
        line p₂ rest p₃ madeRest extended₃ i t there holds
      refine ⟨u, ?_, held⟩
      have passed : lineStep alu lines (_, u) = some (_, u) := lineStep_label there.right.getElem?
      simp only [List.length_append, List.length_map, placed_length, List.length_singleton,
        ← Nat.add_assoc] at passed ⊢
      exact reaches.trans (.single passed)
  | leave fails =>
      intro plain line p code q made extended i t there holds
      rw [plainStatement, Bool.and_eq_true] at plain
      obtain ⟨_, _, _, _, _, _, _, test, _⟩ :=
        loop_code alu (image.atLine line) plain.1 plain.2 made extended there
      obtain ⟨b, u, truth, held, reaches⟩ := test t _ (holds.atLine line)
      obtain rfl := Option.some.inj (truth.symm.trans fails)
      exact ⟨u, reaches, held.atLine s.line⟩
  | «repeat» truth _ _ once again =>
      intro plain line p code q made extended i t there holds
      have both := plain
      rw [plainStatement, Bool.and_eq_true] at both
      obtain ⟨k, inner, p', q', madeBody, extended', thereBody, test, back⟩ :=
        loop_code alu (image.atLine line) both.1 both.2 made extended there
      obtain ⟨b, u, truth', held, reaches⟩ := test t _ (holds.atLine line)
      obtain rfl := Option.some.inj (truth'.symm.trans truth)
      obtain ⟨v, onward, held'⟩ := once both.2 line p' inner q' madeBody extended' k u thereBody
        (held.atLine s.line)
      obtain ⟨_, _, jumped⟩ := back v
      obtain ⟨x, rest, held''⟩ := again plain line p code q made extended i v there held'
      exact ⟨x, (reaches.trans onward).trans (.head jumped rest), held''⟩
  | done =>
      intro _ line p code q made _ i t _ holds
      rw [Setting.block, made_pure] at made
      obtain ⟨rfl, rfl⟩ := made
      exact ⟨t, .refl _, holds⟩
  | next _ _ once onward =>
      intro plain line p code q made extended i t there holds
      rw [plainBlock, Bool.and_eq_true] at plain
      simp only [Setting.block, made_bind, made_pure] at made
      obtain ⟨first, middle, madeFirst, rest, _, madeRest, rfl, rfl⟩ := made
      rw [List.map_append] at there
      obtain ⟨u, reaches, held⟩ := once plain.1 line p first middle madeFirst
        ((Setting.grows_block { s with line } _ (Setting.allSpelled_of_plainBlock _ plain.2) _ _ _
          madeRest).trans extended) i t
        there.left holds
      have behind := there.right
      rw [List.length_map] at behind
      obtain ⟨v, further, held'⟩ := onward plain.2 line middle rest _ madeRest extended _ u behind
        held
      refine ⟨v, ?_, held'⟩
      rw [List.length_append, ← Nat.add_assoc]
      exact reaches.trans further
  | taken truth _ ih =>
      intro plain _ line depth last p first q made extended line' p' rest q' madeRest _ i t there
        holds
      rw [plainBranches, Bool.and_eq_true, Bool.and_eq_true] at plain
      obtain ⟨k, inner, p₁, q₁, madeBody, extended₁, thereBody, ⟨_, _, _, _, _, _, test⟩, out⟩ :=
        branches_code alu (image.atLine line) plain.1.1 plain.1.2 plain.2
          (block_of_isEmpty madeRest) made extended there
      obtain ⟨b, u, truth', held, reaches⟩ := test t _ (holds.atLine line)
      obtain rfl := Option.some.inj (truth'.symm.trans truth)
      obtain ⟨v, onward, held'⟩ := ih plain.1.2 line p₁ inner q₁ madeBody extended₁ k u
        thereBody (held.atLine s.line)
      rw [List.length_map] at out
      exact ⟨v, (reaches.trans onward).trans (out v), held'⟩
  | skipped fails _ ih =>
      intro plain plainElse line depth last p first q made extended line' p' rest q' madeRest
        extended' i t there holds
      rw [plainBranches, Bool.and_eq_true, Bool.and_eq_true] at plain
      obtain ⟨_, _, _, _, _, _, _, ⟨m, more, p₂, madeMore, thereMore, ends, test⟩, _⟩ :=
        branches_code alu (image.atLine line) plain.1.1 plain.1.2 plain.2
          (block_of_isEmpty madeRest) made extended there
      obtain ⟨b, u, truth', held, reaches⟩ := test t _ (holds.atLine line)
      obtain rfl := Option.some.inj (truth'.symm.trans fails)
      obtain ⟨v, onward, held'⟩ := ih plain.2 plainElse line depth last p₂ more q madeMore extended
        line' p' rest q' madeRest extended' m u thereMore (held.atLine s.line)
      rw [List.length_map] at ends
      exact ⟨v, ends ▸ reaches.trans onward, held'⟩
  | otherwise _ ih =>
      intro _ plain line depth last p first q made _ line' p' rest q' madeRest extended' i t there
        holds
      rw [Setting.branches, made_pure] at made
      obtain ⟨rfl, rfl⟩ := made
      exact ih plain line' p' rest q' madeRest extended' i t there.left holds

end Runs

/-! ## What ends is executed -/

section Ends

variable {alu : Alu} {s : Setting} {lines : List AssemblyLine} {final : Pool}
  {code : List Instruction} {addressOf : String → Nat}

mutual

/-- Where the code of a statement is on its way to the end of the program, the statement
is executed.  The steps that are left bound how often a loop is repeated. -/
theorem executes_statement (image : Image s lines final) (layout : Layout lines code addressOf)
    (n : Nat) : ∀ statement : Statement, plainStatement s.known statement = true →
      ∀ line p text q, Made ({ s with line }.statement statement) p text q →
        q.Extends s.constants s.procedure final → ∀ i t store,
          Placed lines i (text.map PlacedLine.line) → Holds s final store t →
          ∀ m, m ≤ n → Ends alu lines code addressOf m i t →
            ∃ next, Executes (s.reading alu) (.statement statement) store next
  | .assign position target op value, plain => by
      intro line p text q made extended i t store there holds m _ _
      obtain ⟨next, _, executed, _⟩ :=
        assign_code (image.atLine line) plain made extended there (holds.atLine line)
      exact ⟨next, executed⟩
  | .pass position, _ => by
      intro _ _ _ _ _ _ _ _ store _ _ _ _ _
      exact ⟨store, .pass⟩
  | .cond position branches otherwise, plain => by
      intro line p text q made extended i t store there holds m le ends
      rw [plainStatement, Bool.and_eq_true] at plain
      obtain ⟨depth, last, first, rest, p₁, p₂, p₃, madeFirst, madeRest, extended₂, extended₃,
        rfl⟩ := made_cond made extended plain.2
      rw [List.map_append, List.map_append, placed_lines] at there
      obtain ⟨next, executed⟩ := executes_branches image layout n branches otherwise plain.1
        plain.2 _ depth last p₁ first p₂ madeFirst extended₂ line p₂ rest p₃ madeRest extended₃ i
        t store there holds m le ends
      exact ⟨next, .cond executed⟩
  | .loop position condition body, plain => by
      intro line p text q made extended i t store there holds m le ends
      have both := plain
      rw [plainStatement, Bool.and_eq_true] at both
      obtain ⟨k, inner, p', q', madeBody, extended', thereBody, test, back⟩ :=
        loop_code alu (image.atLine line) both.1 both.2 made extended there
      obtain ⟨b, u, truth, held, reaches⟩ := test t store (holds.atLine line)
      cases b with
      | false => exact ⟨store, .leave truth⟩
      | true =>
          obtain ⟨m₁, le₁, atBody⟩ := ends.of_reaches layout reaches
          obtain ⟨middle, executed⟩ := executes_block image layout n body both.2 line p' inner q'
            madeBody extended' k u store thereBody (held.atLine s.line) m₁ (Nat.le_trans le₁ le)
            atBody
          obtain ⟨v, onward, held'⟩ := runs_of_executes image executed both.2 line p' inner q'
            madeBody extended' k u thereBody (held.atLine s.line)
          obtain ⟨m₂, le₂, behind⟩ := atBody.of_reaches layout onward
          obtain ⟨label, found, jumped⟩ := back v
          obtain ⟨m₃, less, atTop⟩ := behind.of_step layout found jumped
          have fewer : m₃ < n := by omega
          obtain ⟨next, again⟩ := executes_statement image layout m₃
            (.loop position condition body) plain line p text q made extended i v middle there
            held' m₃ (Nat.le_refl _) atTop
          exact ⟨next, .repeat truth executed again⟩
termination_by statement => (n, sizeOf statement)

theorem executes_branches (image : Image s lines final) (layout : Layout lines code addressOf)
    (n : Nat) : ∀ (branches : List (SourceFormula × List Statement)) (otherwise : List Statement),
      plainBranches s.known branches = true → plainBlock s.known otherwise = true →
      ∀ line depth last p first q,
        Made ({ s with line }.branches depth last otherwise.isEmpty branches) p first q →
        q.Extends s.constants s.procedure final →
        ∀ line' p' rest q', Made ({ s with line := line' }.block otherwise) p' rest q' →
          q'.Extends s.constants s.procedure final → ∀ i t store,
            Placed lines i (first.map PlacedLine.line ++ rest.map PlacedLine.line ++
              [.label last]) →
            Holds s final store t → ∀ m, m ≤ n → Ends alu lines code addressOf m i t →
              ∃ next, Executes (s.reading alu) (.branches branches otherwise) store next
  | [], otherwise, _, plain => by
      intro line depth last p first q made _ line' p' rest q' madeRest extended' i t store there
        holds m le ends
      rw [Setting.branches, made_pure] at made
      obtain ⟨rfl, rfl⟩ := made
      obtain ⟨next, executed⟩ := executes_block image layout n otherwise plain line' p' rest q'
        madeRest extended' i t store there.left holds m le ends
      exact ⟨next, .otherwise executed⟩
  | (condition, body) :: others, otherwise, plain, plainElse => by
      intro line depth last p first q made extended line' p' rest q' madeRest extended' i t store
        there holds m le ends
      rw [plainBranches, Bool.and_eq_true, Bool.and_eq_true] at plain
      obtain ⟨k, inner, p₁, q₁, madeBody, extended₁, thereBody,
        ⟨k', more, p₂, madeMore, thereMore, _, test⟩, _⟩ :=
        branches_code alu (image.atLine line) plain.1.1 plain.1.2 plain.2
          (block_of_isEmpty madeRest) made extended there
      obtain ⟨b, u, truth, held, reaches⟩ := test t store (holds.atLine line)
      obtain ⟨m', le', onward⟩ := ends.of_reaches layout reaches
      cases b with
      | true =>
          obtain ⟨next, executed⟩ := executes_block image layout n body plain.1.2 line p₁ inner q₁
            madeBody extended₁ k u store thereBody (held.atLine s.line) m' (Nat.le_trans le' le)
            onward
          exact ⟨next, .taken truth executed⟩
      | false =>
          obtain ⟨next, executed⟩ := executes_branches image layout n others otherwise plain.2
            plainElse line depth last p₂ more q madeMore extended line' p' rest q' madeRest
            extended' k' u store thereMore (held.atLine s.line) m' (Nat.le_trans le' le) onward
          exact ⟨next, .skipped truth executed⟩
termination_by branches otherwise => (n, sizeOf branches + sizeOf otherwise)

theorem executes_block (image : Image s lines final) (layout : Layout lines code addressOf)
    (n : Nat) : ∀ statements : List Statement, plainBlock s.known statements = true →
      ∀ line p text q, Made ({ s with line }.block statements) p text q →
        q.Extends s.constants s.procedure final → ∀ i t store,
          Placed lines i (text.map PlacedLine.line) → Holds s final store t →
          ∀ m, m ≤ n → Ends alu lines code addressOf m i t →
            ∃ next, Executes (s.reading alu) (.block statements) store next
  | [], _ => by
      intro _ _ _ _ _ _ _ _ store _ _ _ _ _
      exact ⟨store, .done⟩
  | first :: rest, plain => by
      intro line p text q made extended i t store there holds m le ends
      rw [plainBlock, Bool.and_eq_true] at plain
      simp only [Setting.block, made_bind, made_pure] at made
      obtain ⟨one, middle, madeFirst, more, q', madeRest, rfl, rfl⟩ := made
      have extended₁ : middle.Extends s.constants s.procedure final :=
        (Setting.grows_block { s with line } rest (Setting.allSpelled_of_plainBlock _ plain.2) _ _ _
          madeRest).trans extended
      rw [List.map_append] at there
      obtain ⟨between, executed⟩ := executes_statement image layout n first plain.1 line p one
        middle madeFirst extended₁ i t store there.left holds m le ends
      obtain ⟨u, reaches, held⟩ := runs_of_executes image executed plain.1 line p one middle
        madeFirst extended₁ i t there.left holds
      obtain ⟨m', le', onward⟩ := ends.of_reaches layout reaches
      have behind := there.right
      rw [List.length_map] at behind
      obtain ⟨next, executed'⟩ := executes_block image layout n rest plain.2 line middle more q'
        madeRest extended _ u between behind held m' (Nat.le_trans le' le) onward
      exact ⟨next, .next executed executed'⟩
termination_by statements => (n, sizeOf statements)

end

end Ends

end PulseSequencer.Ppp
