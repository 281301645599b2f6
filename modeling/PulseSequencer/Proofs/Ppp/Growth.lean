import PulseSequencer.Proofs.Ppp.Meaning
import PulseSequencer.Proofs.Ppp.Pool

/-
# PulseSequencer.Proofs.Ppp.Growth -- no code takes anything away

The code of formulas, conditions and statements only adds to the pool: `climbs_lower`,
`climbs_jump` and `grows_block`.  Statements free their scratch cells, so that these grow
but do not climb.
-/

namespace PulseSequencer.Ppp

set_option autoImplicit false

/-- The units of formulas can be written. -/
def AllSpelled (formulas : List SourceFormula) : Prop :=
  ∀ v ∈ formulas, v.formula.spelled = true

theorem allSpelled_nil : AllSpelled [] := fun _ there => absurd there List.not_mem_nil

theorem allSpelled_append {a b : List SourceFormula} :
    AllSpelled (a ++ b) ↔ AllSpelled a ∧ AllSpelled b := List.forall_mem_append

theorem allSpelled_cons {v : SourceFormula} {rest : List SourceFormula} :
    AllSpelled (v :: rest) ↔ v.formula.spelled = true ∧ AllSpelled rest := List.forall_mem_cons

namespace Setting

variable {s : Setting}

/-! ## What the compiler knows -/

/-- What the compiler knows, with units that a declaration can be written with. -/
def known (s : Setting) (formula : Formula) : Bool :=
  isConstant s.scope formula && formula.spelled

theorem known_of_unknown {formula : Formula} (unknown : isConstant s.scope formula = false) :
    s.known formula = false := by
  rw [known, unknown, Bool.false_and]

theorem not_known_of_unknown {formula : Formula} (unknown : isConstant s.scope formula = false) :
    ¬ s.known formula = true := by
  rw [known_of_unknown unknown]
  exact Bool.false_ne_true

theorem plain_operand {offset : Nat} {op : UnaryOp} {operand : Formula}
    (unknown : isConstant s.scope (.unary offset op operand) = false)
    (plain : plainFormula s.known (.unary offset op operand) = true) :
    plainFormula s.known operand = true := by
  rwa [plainFormula, known_of_unknown unknown, Bool.false_or] at plain

theorem plain_operands {offset : Nat} {op : BinaryOp} {left right : Formula}
    (unknown : isConstant s.scope (.binary offset op left right) = false)
    (plain : plainFormula s.known (.binary offset op left right) = true) :
    plainFormula s.known left = true ∧ plainFormula s.known right = true := by
  rwa [plainFormula, known_of_unknown unknown, Bool.false_or, Bool.and_eq_true] at plain

theorem spelled_of_known {formula : Formula} (known : s.known formula = true) :
    formula.spelled = true :=
  ((Bool.and_eq_true _ _).mp known).2

/-- What is plain with its units has units that can be written. -/
theorem spelled_of_plain : ∀ formula : Formula, plainFormula s.known formula = true →
    formula.spelled = true
  | .name _ _, _ => by rw [Formula.spelled]
  | .unary offset op operand, plain => by
      rw [plainFormula, Bool.or_eq_true] at plain
      rcases plain with known | plain
      · exact spelled_of_known known
      · rw [Formula.spelled]
        exact spelled_of_plain operand plain
  | .binary offset op left right, plain => by
      rw [plainFormula, Bool.or_eq_true, Bool.and_eq_true] at plain
      rcases plain with known | plain
      · exact spelled_of_known known
      · rw [Formula.spelled, Bool.and_eq_true]
        exact ⟨spelled_of_plain left plain.1, spelled_of_plain right plain.2⟩
  | .int _ _, known | .float _ _, known | .quantity _ _ _, known | .text _ _, known
  | .list _ _, known | .dict _ _, known | .call _ _ _, known
  | .index _ _ _, known => spelled_of_known known

/-- A formula is plain with its units if it is plain and its units can be written. -/
theorem plainFormula_known : ∀ formula : Formula,
    plainFormula (isConstant s.scope) formula = true → formula.spelled = true →
      plainFormula s.known formula = true
  | .name _ _, _, _ => rfl
  | .unary offset op operand, plain, spelled => by
      rw [plainFormula, Bool.or_eq_true] at plain ⊢
      rcases plain with constant | plain
      · exact .inl ((Bool.and_eq_true _ _).mpr ⟨constant, spelled⟩)
      · rw [Formula.spelled] at spelled
        exact .inr (plainFormula_known operand plain spelled)
  | .binary offset op left right, plain, spelled => by
      rw [plainFormula, Bool.or_eq_true, Bool.and_eq_true] at plain ⊢
      rcases plain with constant | plain
      · exact .inl ((Bool.and_eq_true _ _).mpr ⟨constant, spelled⟩)
      · rw [Formula.spelled, Bool.and_eq_true] at spelled
        exact .inr ⟨plainFormula_known left plain.1 spelled.1,
          plainFormula_known right plain.2 spelled.2⟩
  | .int _ _, constant, spelled | .float _ _, constant, spelled
  | .quantity _ _ _, constant, spelled | .text _ _, constant, spelled
  | .list _ _, constant, spelled | .dict _ _, constant, spelled
  | .call _ _ _, constant, spelled | .index _ _ _, constant, spelled =>
      (Bool.and_eq_true _ _).mpr ⟨constant, spelled⟩

mutual

theorem plainStatement_known : ∀ statement : Statement,
    plainStatement (isConstant s.scope) statement = true → AllSpelled statement.formulas →
        plainStatement s.known statement = true
  | .assign _ _ _ value, plain, spelled => by
      rw [plainStatement] at plain ⊢
      exact plainFormula_known value.formula plain
        (spelled value (by rw [Statement.formulas]; exact List.mem_singleton.2 rfl))
  | .cond _ branches otherwise, plain, spelled => by
      rw [plainStatement, Bool.and_eq_true] at plain ⊢
      rw [Statement.formulas, allSpelled_append] at spelled
      exact ⟨plainBranches_known branches plain.1 spelled.1,
        plainBlock_known otherwise plain.2 spelled.2⟩
  | .loop _ condition body, plain, spelled => by
      rw [plainStatement, Bool.and_eq_true] at plain ⊢
      rw [Statement.formulas, allSpelled_cons] at spelled
      exact ⟨plainFormula_known condition.formula plain.1 spelled.1,
        plainBlock_known body plain.2 spelled.2⟩
  | .pass _, _, _ => by rw [plainStatement]

theorem plainBranches_known : ∀ branches : List (SourceFormula × List Statement),
    plainBranches (isConstant s.scope) branches = true →
      AllSpelled (Statement.branchFormulas branches) → plainBranches s.known branches = true
  | [], _, _ => by rw [plainBranches]
  | (condition, body) :: rest, plain, spelled => by
      rw [plainBranches, Bool.and_eq_true, Bool.and_eq_true] at plain ⊢
      rw [Statement.branchFormulas, allSpelled_cons, allSpelled_append] at spelled
      exact ⟨⟨plainFormula_known condition.formula plain.1.1 spelled.1,
        plainBlock_known body plain.1.2 spelled.2.1⟩,
        plainBranches_known rest plain.2 spelled.2.2⟩

/-- A plain block whose units can be written is plain with its units. -/
theorem plainBlock_known : ∀ statements : List Statement,
    plainBlock (isConstant s.scope) statements = true →
      AllSpelled (Statement.blockFormulas statements) → plainBlock s.known statements = true
  | [], _, _ => by rw [plainBlock]
  | first :: rest, plain, spelled => by
      rw [plainBlock, Bool.and_eq_true] at plain ⊢
      rw [Statement.blockFormulas, allSpelled_append] at spelled
      exact ⟨plainStatement_known first plain.1 spelled.1,
        plainBlock_known rest plain.2 spelled.2⟩

end

mutual

theorem allSpelled_of_plainStatement : ∀ statement : Statement,
    plainStatement s.known statement = true → AllSpelled statement.formulas
  | .assign _ _ _ value, plain => by
      rw [plainStatement] at plain
      rw [Statement.formulas, allSpelled_cons]
      exact ⟨spelled_of_plain _ plain, allSpelled_nil⟩
  | .cond _ branches otherwise, plain => by
      rw [plainStatement, Bool.and_eq_true] at plain
      rw [Statement.formulas, allSpelled_append]
      exact ⟨allSpelled_of_plainBranches branches plain.1,
        allSpelled_of_plainBlock otherwise plain.2⟩
  | .loop _ condition body, plain => by
      rw [plainStatement, Bool.and_eq_true] at plain
      rw [Statement.formulas, allSpelled_cons]
      exact ⟨spelled_of_plain _ plain.1, allSpelled_of_plainBlock body plain.2⟩
  | .pass _, _ => by
      rw [Statement.formulas]
      exact allSpelled_nil

theorem allSpelled_of_plainBranches : ∀ branches : List (SourceFormula × List Statement),
    plainBranches s.known branches = true → AllSpelled (Statement.branchFormulas branches)
  | [], _ => by
      rw [Statement.branchFormulas]
      exact allSpelled_nil
  | (condition, body) :: rest, plain => by
      rw [plainBranches, Bool.and_eq_true, Bool.and_eq_true] at plain
      rw [Statement.branchFormulas, allSpelled_cons, allSpelled_append]
      exact ⟨spelled_of_plain _ plain.1.1, allSpelled_of_plainBlock body plain.1.2,
        allSpelled_of_plainBranches rest plain.2⟩

theorem allSpelled_of_plainBlock : ∀ statements : List Statement,
    plainBlock s.known statements = true → AllSpelled (Statement.blockFormulas statements)
  | [], _ => by
      rw [Statement.blockFormulas]
      exact allSpelled_nil
  | first :: rest, plain => by
      rw [plainBlock, Bool.and_eq_true] at plain
      rw [Statement.blockFormulas, allSpelled_append]
      exact ⟨allSpelled_of_plainStatement first plain.1, allSpelled_of_plainBlock rest plain.2⟩

end

/-- The code that loads what the compiler knows takes it from the cell of its value. -/
theorem made_complete_load {start : Nat} {formula : Formula} {load : Lowering (List AssemblyLine)}
    {p q : Pool} {code : List AssemblyLine} :
    Made (s.complete start formula load).load p code q ↔
      if isConstant s.scope formula then
        ∃ cell, Made (s.literal start formula) p cell q ∧ code = [.unary .ldwr cell]
      else Made load p code q := by
  simp only [complete]
  split
  · simp only [made_bind, made_pure]
    constructor
    · rintro ⟨cell, _, made, rfl, rfl⟩
      exact ⟨cell, made, rfl⟩
    · rintro ⟨cell, made, rfl⟩
      exact ⟨cell, q, made, rfl, rfl⟩
  · rfl

/-- An operand is the cell of a folded value or of a variable, or a scratch cell that
the code behind `load` fills. -/
theorem made_complete_operand {start : Nat} {formula : Formula}
    {load : Lowering (List AssemblyLine)} {p q : Pool} {code : List AssemblyLine} {cell : String}
    (made : Made (s.complete start formula load).operand p (code, cell) q) :
    (isConstant s.scope formula = true ∧ Made (s.literal start formula) p cell q ∧ code = []) ∨
      isConstant s.scope formula = false ∧
        ((∃ offset name kind slot, formula = .name offset name ∧
            s.scope.lookup name = some (.cell kind slot cell) ∧ code = [] ∧ p = q) ∨
          ∃ before middle, Made load p before middle ∧ Made s.takeScratch middle cell q ∧
            code = before ++ [.unary .stwr cell]) := by
  have scratch : Made (do
      let code ← load
      let cell ← s.takeScratch
      return (code ++ [AssemblyLine.unary .stwr cell], cell)) p (code, cell) q →
      ∃ before middle, Made load p before middle ∧ Made s.takeScratch middle cell q ∧
        code = before ++ [.unary .stwr cell] := by
    intro made
    simp only [made_bind, made_pure, Prod.mk.injEq] at made
    obtain ⟨before, middle, loaded, taken, _, stored, ⟨rfl, rfl⟩, rfl⟩ := made
    exact ⟨before, middle, loaded, stored, rfl⟩
  unfold complete at made
  cases known : isConstant s.scope formula with
  | true =>
      simp only [known, if_true, made_bind, made_pure, Prod.mk.injEq] at made
      obtain ⟨_, _, made, ⟨rfl, rfl⟩, rfl⟩ := made
      exact .inl ⟨rfl, made, rfl⟩
  | false =>
      simp only [known, Bool.false_eq_true, if_false] at made
      refine .inr ⟨rfl, ?_⟩
      split at made
      · rename_i offset name
        split at made
        · rename_i kind slot other found
          simp only [made_pure, Prod.mk.injEq] at made
          obtain ⟨⟨rfl, rfl⟩, rfl⟩ := made
          exact .inl ⟨offset, name, kind, slot, rfl, found, rfl, rfl⟩
        · exact .inr (scratch made)
      · exact .inr (scratch made)

/-! ## Formulas -/

theorem climbs_complete_load {start : Nat} {formula : Formula}
    {load : Lowering (List AssemblyLine)}
    (spelled : formula.spelled = true)
    (climbs : isConstant s.scope formula = false → Climbs s.constants s.procedure load) :
    Climbs s.constants s.procedure (s.complete start formula load).load := by
  intro p code q made
  rw [made_complete_load] at made
  split at made
  · obtain ⟨cell, made, _⟩ := made
    exact climbs_literal s start spelled p cell q made
  · rename_i unknown
    exact climbs (Bool.eq_false_iff.2 unknown) p code q made

theorem climbs_complete_operand {start : Nat} {formula : Formula}
    {load : Lowering (List AssemblyLine)}
    (spelled : formula.spelled = true)
    (climbs : isConstant s.scope formula = false → Climbs s.constants s.procedure load) :
    Climbs s.constants s.procedure (s.complete start formula load).operand := by
  rintro p ⟨code, cell⟩ q made
  rcases made_complete_operand made with
    ⟨_, made, _⟩ | ⟨unknown, ⟨_, _, _, _, _, _, _, rfl⟩ | ⟨before, middle, loaded, taken, _⟩⟩
  · exact climbs_literal s start spelled p cell q made
  · exact ⟨.refl p, Nat.le_refl _⟩
  · obtain ⟨first, up⟩ := climbs unknown p before middle loaded
    obtain ⟨second, further⟩ := climbs_takeScratch s middle cell q taken
    exact ⟨first.trans second, Nat.le_trans up further⟩

/-- Loading a formula, or making it an operand, adds to the pool. -/
def LoweredClimbs (s : Setting) (l : Lowered) : Prop :=
  Climbs s.constants s.procedure l.load ∧ Climbs s.constants s.procedure l.operand

theorem climbs_complete {start : Nat} {formula : Formula} {load : Lowering (List AssemblyLine)}
    (spelled : formula.spelled = true)
    (climbs : isConstant s.scope formula = false → Climbs s.constants s.procedure load) :
    LoweredClimbs s (s.complete start formula load) :=
  ⟨climbs_complete_load spelled climbs, climbs_complete_operand spelled climbs⟩

theorem climbs_loadName (offset : Nat) (name : String) :
    Climbs s.constants s.procedure (s.loadName offset name) := by
  unfold loadName
  split
  · exact climbs_pure _
  · exact climbs_rejectAt s offset _
  · exact climbs_rejectAt s offset _

theorem climbs_loadBinary (offset : Nat) (op : BinaryOp) {left right : Lowered}
    (onLeft : LoweredClimbs s left) (onRight : LoweredClimbs s right) :
    Climbs s.constants s.procedure (s.loadBinary offset op left right) := by
  unfold loadBinary
  split
  · exact onRight.2.bind fun _ => onLeft.1.bind fun _ => climbs_pure _
  · split <;> exact climbs_rejectAt s offset _

theorem climbs_loadUnary (offset : Nat) (op : UnaryOp) {operand : Lowered}
    (climbs : LoweredClimbs s operand) :
    Climbs s.constants s.procedure (s.loadUnary offset op operand) := by
  unfold loadUnary
  split
  · exact climbs_rejectAt s offset _
  · exact climbs.1
  · exact climbs.2.bind fun _ => climbs_pure _

/-! ## Calls -/

section Calls

variable {b : Builtin} {position : Position}

/-- Every argument is bound to a parameter, and nothing else is bound. -/
theorem made_bindArguments : ∀ {arguments : List LoweredArgument} {index : Nat}
    {bound result : Table String Lowered} {p q : Pool},
    Made (bindArguments b position index bound arguments) p result q →
      (∀ n l, result.get? n = some l → bound.get? n = some l ∨ ∃ a ∈ arguments, a.value = l) ∧
      (∀ n l, bound.get? n = some l → result.get? n = some l) ∧
      ∀ a ∈ arguments, ∃ param ∈ b.params, result.get? param.name = some a.value
  | [], index, bound, result, p, q, made => by
      obtain ⟨rfl, rfl⟩ := made_pure.1 made
      simp
  | a :: rest, index, bound, result, p, q, made => by
      rw [bindArguments] at made
      split at made
      · exact absurd made not_made_throw
      · rename_i param chosen
        have known : param ∈ b.params := by
          split at chosen
          · exact List.mem_of_getElem? chosen
          · exact List.mem_of_find?_eq_some chosen
        split at made
        · exact absurd made not_made_throw
        · rename_i free
          have absent : bound.get? param.name = none := by
            rw [Table.contains, Bool.not_eq_true, Option.isSome_eq_false_iff,
              Option.isNone_iff_eq_none] at free
            exact free
          obtain ⟨only, keeps, all⟩ := made_bindArguments made
          refine ⟨fun n l found => ?_, fun n l found => ?_, fun other there => ?_⟩
          · rcases only n l found with old | ⟨a', there, same⟩
            · rw [Table.get?_insert] at old
              split at old
              · exact .inr ⟨a, List.mem_cons_self .., Option.some.inj old⟩
              · exact .inl old
            · exact .inr ⟨a', List.mem_cons_of_mem _ there, same⟩
          · refine keeps n l ?_
            rw [Table.get?_insert, if_neg, found]
            rintro rfl
            exact Option.some_ne_none _ (found.symm.trans absent)
          · rcases List.mem_cons.1 there with rfl | later
            · exact ⟨param, known, keeps _ _ (by rw [Table.get?_insert, if_pos rfl])⟩
            · exact all other later

theorem climbs_bindArguments {constants : Table String Value} {owner : String}
    (b : Builtin) (position : Position) : ∀ (index : Nat) (bound : Table String Lowered)
      (arguments : List LoweredArgument),
        Climbs constants owner (bindArguments b position index bound arguments)
  | _, _, [] => climbs_pure _
  | index, bound, a :: rest => by
      rw [bindArguments]
      split
      · exact climbs_reject position _
      · split
        · exact climbs_reject position _
        · exact climbs_bindArguments b position _ _ rest

theorem climbs_channel (argument : Lowered) :
    Climbs s.constants s.procedure (s.channel argument) := by
  unfold channel
  split
  · exact climbs_rejectAt s _ _
  · refine (climbs_liftM _).bind fun value => ?_
    split
    · split
      · exact climbs_pure _
      · exact climbs_rejectAt s _ _
    · exact climbs_rejectAt s _ _

theorem climbs_target {constants : Table String Value} {owner : String} (name : String)
    (position : Position) : Climbs constants owner (s.target name position) := by
  unfold target
  split
  · exact climbs_pure _
  all_goals exact climbs_reject position _

theorem climbs_operandOf (param : Param) {argument : Lowered} (climbs : LoweredClimbs s argument) :
    Climbs s.constants s.procedure (s.operandOf b position param argument) := by
  unfold operandOf
  split
  · exact climbs.2
  · exact (climbs_channel argument).bind fun _ => climbs_pure _
  · split
    · exact (climbs_target _ _).bind fun _ => climbs_pure _
    · exact climbs_rejectAt s _ _
  · exact climbs_pure _

variable {bound : Table String Lowered}
  (climbs : ∀ n l, bound.get? n = some l → LoweredClimbs s l)
include climbs

theorem climbs_operands : ∀ (params : List Param) (done : Operands),
    Climbs s.constants s.procedure (s.operands b position bound done params)
  | [], done => climbs_pure _
  | param :: rest, done => by
      rw [operands]
      split
      · split
        · exact climbs_operands rest done
        · exact climbs_reject position _
      · rename_i argument found
        exact (climbs_operandOf param (climbs _ _ found)).bind fun _ => climbs_operands rest _

theorem climbs_loadAccumulator : Climbs s.constants s.procedure (loadAccumulator b bound) := by
  unfold loadAccumulator
  split
  · exact climbs_pure _
  · split
    · exact climbs_pure _
    · rename_i found
      exact (climbs _ _ found).1

end Calls

theorem climbs_passArguments (position : Position) : ∀ (cells : List String)
    (arguments : List LoweredArgument), (∀ a ∈ arguments, LoweredClimbs s a.value) →
      Climbs s.constants s.procedure (passArguments position cells arguments)
  | cell :: cells, a :: rest, climbs => by
      rw [passArguments]
      split
      · exact climbs_reject position _
      · exact (climbs a (List.mem_cons_self ..)).1.bind fun _ =>
          (climbs_passArguments position cells rest
              fun other there => climbs other (List.mem_cons_of_mem _ there)).bind fun _ =>
              climbs_pure _
  | [], _, _ | _ :: _, [], _ => climbs_pure _

theorem climbs_callBuiltin {b : Builtin} {position : Position} {arguments : List LoweredArgument}
    (climbs : ∀ a ∈ arguments, LoweredClimbs s a.value) :
    Climbs s.constants s.procedure (s.callBuiltin b arguments position) := by
  unfold callBuiltin
  split
  · exact climbs_reject position _
  · intro p code q made
    simp only [made_bind, made_pure] at made
    obtain ⟨bound, p₁, bind, done, p₂, computed, loads, _, loaded, _, rfl⟩ := made
    have onBound : ∀ n l, bound.get? n = some l → LoweredClimbs s l := by
      intro n l found
      rcases (made_bindArguments bind).1 n l found with none' | ⟨a, there, rfl⟩
      · cases none'
      · exact climbs a there
    obtain ⟨first, up⟩ := climbs_bindArguments b position 0 _ _ p bound p₁ bind
    obtain ⟨second, further⟩ := climbs_operands onBound _ _ p₁ done p₂ computed
    obtain ⟨third, last⟩ := climbs_loadAccumulator onBound p₂ loads _ loaded
    exact ⟨(first.trans second).trans third, Nat.le_trans (Nat.le_trans up further) last⟩

theorem climbs_call {name : String} {arguments : List LoweredArgument} {position : Position}
    {asValue : Bool} (climbs : ∀ a ∈ arguments, LoweredClimbs s a.value) :
    Climbs s.constants s.procedure (s.call name arguments position asValue) := by
  unfold call
  split
  · split
    · exact climbs_reject position _
    · exact climbs_reject position _
    · exact climbs_callBuiltin climbs
  · split
    · exact climbs_reject position _
    · exact (climbs_passArguments position _ arguments climbs).bind fun _ => climbs_pure _
  all_goals exact climbs_reject position _

mutual

/-- **The code of formulas adds to the pool and frees no scratch cell.** -/
theorem climbs_lower (start : Nat) : ∀ formula : Formula,
    formula.spelled = true → LoweredClimbs s (s.lower start formula)
  | .name offset name, spelled => by
      rw [lower]
      exact climbs_complete spelled fun _ => climbs_loadName _ _
  | .unary offset op operand, spelled => by
      rw [lower]
      refine climbs_complete spelled fun _ => ?_
      rw [Formula.spelled] at spelled
      exact climbs_loadUnary _ op (climbs_lower start operand spelled)
  | .binary offset op left right, spelled => by
      rw [lower]
      refine climbs_complete spelled fun _ => ?_
      rw [Formula.spelled, Bool.and_eq_true] at spelled
      exact climbs_loadBinary _ op (climbs_lower start left spelled.1)
        (climbs_lower start right spelled.2)
  | .call offset function args, spelled => by
      rw [lower]
      refine climbs_complete spelled fun _ => ?_
      rw [Formula.spelled] at spelled
      exact climbs_call (climbs_lowerArguments start args spelled)
  | .int _ _, spelled | .float _ _, spelled | .quantity _ _ _, spelled | .text _ _, spelled
  | .list _ _, spelled | .dict _ _, spelled | .index _ _ _, spelled => by
      rw [lower]
      all_goals first
        | exact climbs_complete spelled fun _ => climbs_rejectAt s _ _
        | simp

theorem climbs_lowerArguments (start : Nat) : ∀ args : List Formula,
    Formula.spelledItems args = true →
      ∀ a ∈ s.lowerArguments start args, LoweredClimbs s a.value
  | [], _, a, there => by
      rw [lowerArguments] at there
      exact absurd there List.not_mem_nil
  | f :: rest, spelled, a, there => by
      rw [lowerArguments] at there
      rw [Formula.spelledItems, Bool.and_eq_true] at spelled
      rcases List.mem_cons.1 there with rfl | later
      · exact climbs_lower start f spelled.1
      · exact climbs_lowerArguments start rest spelled.2 a later

end

/-! ## Conditions -/

/-- A formula without a logic operator on top. -/
def isSingle : Formula → Bool
  | .unary _ .not _ | .binary _ .and _ _ | .binary _ .or _ _ => false
  | _ => true

section Jump

variable {start : Nat} {formula : Formula} {wanted : Bool} {label : String}

theorem jump_known (known : isConstant s.scope formula = true) :
    s.jump start formula wanted label = (do
      let value ← s.fold start formula
      return if value.isTrue = wanted then [.jump label] else []) := by
  rw [jump.eq_def]
  exact if_pos known

theorem jump_single (unknown : isConstant s.scope formula = false)
    (single : isSingle formula = true) :
    s.jump start formula wanted label = s.jumpTest start wanted label formula := by
  rw [jump.eq_def]
  refine (if_neg (Bool.eq_false_iff.1 unknown)).trans ?_
  split <;> first
    | rfl
    | exact absurd single (by simp [isSingle])

theorem jump_not {offset : Nat} {operand : Formula}
    (unknown : isConstant s.scope (.unary offset .not operand) = false) :
    s.jump start (.unary offset .not operand) wanted label =
      s.jump start operand (!wanted) label := by
  show (if isConstant s.scope _ = true then _ else _) = _
  rw [unknown, if_neg Bool.false_ne_true]

theorem jump_and {offset : Nat} {left right : Formula}
    (unknown : isConstant s.scope (.binary offset .and left right) = false) :
    s.jump start (.binary offset .and left right) wanted label =
      jumpEither "and" false (s.jump start left) (s.jump start right) wanted label := by
  show (if isConstant s.scope _ = true then _ else _) = _
  rw [unknown, if_neg Bool.false_ne_true]

theorem jump_or {offset : Nat} {left right : Formula}
    (unknown : isConstant s.scope (.binary offset .or left right) = false) :
    s.jump start (.binary offset .or left right) wanted label =
      jumpEither "or" true (s.jump start left) (s.jump start right) wanted label := by
  show (if isConstant s.scope _ = true then _ else _) = _
  rw [unknown, if_neg Bool.false_ne_true]

end Jump

theorem climbs_jumpTest (start : Nat) (wanted : Bool) (label : String) (formula : Formula)
    (spelled : formula.spelled = true) :
    Climbs s.constants s.procedure (s.jumpTest start wanted label formula) := by
  have onValue : Climbs s.constants s.procedure (do
      let code ← (s.lower start formula).load
      return code ++ [jumpIf .jmpnz .jmpz wanted label]) :=
    (climbs_lower start formula spelled).1.bind fun _ => climbs_pure _
  unfold jumpTest
  split
  · split
    · rw [Formula.spelled, Bool.and_eq_true] at spelled
      exact (climbs_lower start _ spelled.2).2.bind fun _ =>
        (climbs_lower start _ spelled.1).1.bind fun _ => climbs_pure _
    · exact onValue
  · split
    · split
      · split
        · exact climbs_pure _
        · exact climbs_rejectAt s _ _
      · exact onValue
    · exact onValue
  · exact onValue

theorem climbs_jumpEither {kind : String} {settled wanted : Bool} {label : String}
    {left right : Bool → String → Lowering (List AssemblyLine)}
    (onLeft : ∀ b label, Climbs s.constants s.procedure (left b label))
    (onRight : ∀ b label, Climbs s.constants s.procedure (right b label)) :
    Climbs s.constants s.procedure (jumpEither kind settled left right wanted label) := by
  unfold jumpEither
  split
  · exact (onLeft _ _).bind fun _ => (onRight _ _).bind fun _ => climbs_pure _
  · exact (climbs_newLabel kind).bind fun _ => (onLeft _ _).bind fun _ =>
      (onRight _ _).bind fun _ => climbs_pure _

/-- **The code of conditions adds to the pool.** -/
theorem climbs_jump (start : Nat) (formula : Formula) (wanted : Bool) (label : String)
    (spelled : formula.spelled = true) :
    Climbs s.constants s.procedure (s.jump start formula wanted label) := by
  cases known : isConstant s.scope formula with
  | true =>
      rw [jump_known known]
      exact (climbs_liftM _).bind fun _ => climbs_pure _
  | false =>
      cases single : isSingle formula with
      | true =>
          rw [jump_single known single]
          exact climbs_jumpTest start wanted label _ spelled
      | false =>
          match formula with
          | .unary offset .not operand =>
              rw [jump_not known]
              rw [Formula.spelled] at spelled
              exact climbs_jump start operand _ _ spelled
          | .binary offset .and left right =>
              rw [jump_and known]
              rw [Formula.spelled, Bool.and_eq_true] at spelled
              exact climbs_jumpEither (fun b label => climbs_jump start left b label spelled.1)
                (fun b label => climbs_jump start right b label spelled.2)
          | .binary offset .or left right =>
              rw [jump_or known]
              rw [Formula.spelled, Bool.and_eq_true] at spelled
              exact climbs_jumpEither (fun b label => climbs_jump start left b label spelled.1)
                (fun b label => climbs_jump start right b label spelled.2)

/-! ## Statements -/

theorem grows_freeScratch {constants : Table String Value} {owner : String} (depth : Nat) :
    Grows constants owner (freeScratch depth) := by
  intro p a q made
  obtain rfl := made_modify.1 made
  exact .of_same rfl rfl (fun _ => Nat.le_refl _) (fun _ _ => rfl) (Nat.le_refl _)

theorem adds_freeScratch {constants : Table String Value} {depth : Nat} {p q : Pool} {a : Unit}
    (freed : Made (freeScratch depth) p a q) : p.Adds constants q :=
  ((show Grows constants "" _ from grows_freeScratch depth) p a q freed).toAdds

theorem grows_pure {constants : Table String Value} {owner : String} {α : Type} (a : α) :
    Grows constants owner (pure a : Lowering α) := (climbs_pure a).grows

theorem climbs_assign (position : Position) (name : String) (op : Option AssignOp)
    (value : SourceFormula) (spelled : value.formula.spelled = true) :
    Climbs s.constants s.procedure (s.assign position name op value) := by
  obtain ⟨load, operand⟩ := climbs_lower (s := s) value.start value.formula spelled
  refine (climbs_target name position).bind fun cell => ?_
  cases op with
  | none => exact load.bind fun _ => climbs_pure _
  | some op => exact operand.bind fun _ => climbs_pure _

theorem climbs_leave (position : Position) (value : Option SourceFormula)
    (spelled : AllSpelled value.toList) :
    Climbs s.constants s.procedure (s.leave position value) := by
  unfold leave
  split
  · exact climbs_reject position _
  · cases value with
    | none => exact (climbs_pure _).bind fun _ => climbs_pure _
    | some value =>
        exact (climbs_lower value.start value.formula
          (spelled value (List.mem_singleton.2 rfl))).1.bind fun _ => climbs_pure _

theorem climbs_lowerCallArguments {arguments : List Argument}
    (spelled : AllSpelled (arguments.map (·.value))) :
    ∀ a ∈ s.lowerCallArguments arguments, LoweredClimbs s a.value := by
  intro a there
  obtain ⟨argument, given, rfl⟩ := List.mem_map.1 there
  exact climbs_lower _ _ (spelled argument.value (List.mem_map_of_mem given))

mutual

theorem grows_statement (s : Setting) : ∀ statement : Statement,
    AllSpelled statement.formulas → Grows s.constants s.procedure (s.statement statement)
  | .assign position target op value, spelled => by
      rw [Setting.statement]
      rw [Statement.formulas, allSpelled_cons] at spelled
      exact climbs_get.grows.bind fun _ =>
        (climbs_assign (s := { s with line := position.line }) position target op value
          spelled.1).grows.bind fun _ => (grows_freeScratch _).bind fun _ => grows_pure _
  | .cond position branches otherwise, spelled => by
      rw [Setting.statement]
      rw [Statement.formulas, allSpelled_append] at spelled
      exact climbs_get.grows.bind fun _ => (climbs_newLabel _).grows.bind fun _ =>
        (grows_branches { s with line := position.line } _ _ _ branches spelled.1).bind fun _ =>
          (grows_block s otherwise spelled.2).bind fun _ =>
            (grows_freeScratch _).bind fun _ => grows_pure _
  | .loop position condition body, spelled => by
      rw [Setting.statement]
      rw [Statement.formulas, allSpelled_cons] at spelled
      exact climbs_get.grows.bind fun _ => (climbs_newLabel _).grows.bind fun _ =>
        (climbs_newLabel _).grows.bind fun _ =>
          (climbs_jump (s := { s with line := position.line })
            _ _ _ _ spelled.1).grows.bind fun _ =>
            (grows_block s body spelled.2).bind fun _ =>
              (grows_freeScratch _).bind fun _ => grows_pure _
  | .call position name arguments, spelled => by
      rw [Setting.statement]
      rw [Statement.formulas] at spelled
      exact climbs_get.grows.bind fun _ =>
        (climbs_call (s := { s with line := position.line })
          (climbs_lowerCallArguments spelled)).grows.bind fun _ =>
            (grows_freeScratch _).bind fun _ => grows_pure _
  | .return position value, spelled => by
      rw [Setting.statement]
      rw [Statement.formulas] at spelled
      exact climbs_get.grows.bind fun _ =>
        (climbs_leave (s := { s with line := position.line }) position value spelled).grows.bind
          fun _ => (grows_freeScratch _).bind fun _ => grows_pure _
  | .pass _, _ | .assembly _ _, _ => by
      rw [Setting.statement]
      exact grows_pure _

theorem grows_branches (s : Setting) (depth : Nat) (last : String) (ends : Bool) :
    ∀ branches : List (SourceFormula × List Statement),
      AllSpelled (Statement.branchFormulas branches) →
        Grows s.constants s.procedure (s.branches depth last ends branches)
  | [], _ => by
      rw [Setting.branches]
      exact grows_pure _
  | (condition, body) :: rest, spelled => by
      rw [Setting.branches]
      rw [Statement.branchFormulas, allSpelled_cons, allSpelled_append] at spelled
      obtain ⟨onCondition, onBody, onRest⟩ := spelled
      split
      · exact (grows_freeScratch _).bind fun _ =>
          (climbs_jump _ _ _ _ onCondition).grows.bind fun _ =>
            (grows_block s body onBody).bind fun _ => grows_pure _
      · exact (climbs_newLabel _).grows.bind fun _ => (grows_freeScratch _).bind fun _ =>
          (climbs_jump _ _ _ _ onCondition).grows.bind fun _ =>
            (grows_block s body onBody).bind fun _ =>
              (grows_branches s depth last ends rest onRest).bind fun _ => grows_pure _

/-- **The code of statements adds to the pool.** -/
theorem grows_block (s : Setting) : ∀ statements : List Statement,
    AllSpelled (Statement.blockFormulas statements) →
      Grows s.constants s.procedure (s.block statements)
  | [], _ => by
      rw [Setting.block]
      exact grows_pure _
  | first :: rest, spelled => by
      rw [Setting.block]
      rw [Statement.blockFormulas, allSpelled_append] at spelled
      exact (grows_statement s first spelled.1).bind fun _ =>
        (grows_block s rest spelled.2).bind fun _ => grows_pure _

end

end Setting

end PulseSequencer.Ppp
