import PulseSequencer.Proofs.Ppp.CallSites

/-
# PulseSequencer.Proofs.Ppp.CallCode -- the calls of statements in their code

The code of conditions and statements has all of their calls, and its jumps lead to labels
of its own (`codes_condition`, `codes_block`).
-/

namespace PulseSequencer.Ppp

open Setting

set_option autoImplicit false

/-! ## Conditions -/

section Conditions

variable {s : Setting} {label : String} {wanted : Bool} {p q : Pool} {code : List AssemblyLine}

theorem codes_jumpIf {scope : Scope} {owner : String} {verbatim : Prop} {whenTrue whenFalse : Opcode}
    (isJump : whenTrue.isJump = true) (isJump' : whenFalse.isJump = true) :
    Codes scope owner [] [label] verbatim [jumpIf whenTrue whenFalse wanted label] := by
  unfold jumpIf
  cases wanted
  · exact codes_jump isJump'
  · exact codes_jump isJump

/-- Code that loads a formula, and a jump behind it. -/
theorem StraightCode.test {scope : Scope} {owner : String} {sites : List Site} {verbatim : Prop}
    {load : List AssemblyLine} (loads : StraightCode scope owner sites load)
    {whenTrue whenFalse : Opcode} (isJump : whenTrue.isJump = true)
    (isJump' : whenFalse.isJump = true) :
    Codes scope owner sites [label] verbatim (load ++ [jumpIf whenTrue whenFalse wanted label]) :=
  have load : Codes scope owner sites [] verbatim load := loads.codes
  load.append (codes_jumpIf isJump isJump') (by simp) (by simp) (fun _ there => .inl there)
    or_self_iff.1

theorem codes_jumpTest (predefines : Predefines s.scope) {start : Nat} {f : Formula}
    (made : Made (s.jumpTest start wanted label f) p code q) :
    Codes s.scope s.procedure (formulaSites f) [label] False code := by
  have onValue : ∀ {f : Formula} {code : List AssemblyLine}, Made (do
      let code ← (s.lower start f).load
      return code ++ [jumpIf .jmpnz .jmpz wanted label]) p code q →
        Codes s.scope s.procedure (formulaSites f) [label] False code := by
    intro f code made
    simp only [made_bind, made_pure] at made
    obtain ⟨load, _, loaded, rfl, _⟩ := made
    exact (loads_lower predefines loaded).test rfl rfl
  unfold jumpTest at made
  split at made
  · rename_i op left right
    split at made
    · rename_i opcode comparison
      simp only [made_bind, made_pure] at made
      obtain ⟨⟨before, cell⟩, _, operand, load, _, loaded, rfl, _⟩ := made
      have quiet : opcode.isQuiet = true := by
        cases op <;> first | (obtain rfl := Option.some.inj comparison; rfl) | cases comparison
      have both : StraightCode s.scope s.procedure (formulaSites (.binary 0 op left right))
          (before ++ load) :=
        (loads_lower_operand predefines operand).append (loads_lower predefines loaded)
          (by simp [formulaSites, or_comm])
      have compared := both.snoc (b := [.unary opcode cell]) (straight_quiet quiet)
      have tested : Codes s.scope s.procedure (formulaSites (.binary 0 op left right)) [label] False
          (before ++ load ++ [.unary opcode cell] ++ [jumpIf .jmpcmp .jmpncmp wanted label]) :=
        compared.test rfl rfl
      simpa [formulaSites] using tested
    · exact onValue made
  · rename_i offset name args
    split at made
    · rename_i b stands
      split at made
      · split at made
        · rename_i empty
          obtain ⟨rfl, _⟩ := made_pure.1 made
          obtain rfl := List.isEmpty_iff.1 empty
          have jumps : Codes s.scope s.procedure [] [label] False
            [jumpIf .jmppipeempty .jmppipeavail wanted label] := codes_jumpIf rfl rfl
          refine ⟨fun line there => (jumps.flows line there).mono
            (fun _ stores => stores.mono (by simp)) (fun _ calls => calls.mono (by simp))
            (fun _ target => target) id, fun site there procedure => ?_⟩
          obtain rfl : site = ⟨name, []⟩ := by simpa [formulaSites, formulasSites] using there
          obtain ⟨symbol, found, other⟩ := procedure
          exact absurd (Option.some.inj (found.symm.trans stands)) (other b)
        · exact absurd made not_made_throw
      · exact onValue made
    · exact onValue made
  · exact onValue made

theorem codes_jumpEither {kind : String} {settled : Bool} {sites₁ sites₂ : List Site}
    {left right : Bool → String → Lowering (List AssemblyLine)}
    (onLeft : ∀ b l p code q, Made (left b l) p code q →
      Codes s.scope s.procedure sites₁ [l] False code)
    (onRight : ∀ b l p code q, Made (right b l) p code q →
      Codes s.scope s.procedure sites₂ [l] False code)
    (made : Made (jumpEither kind settled left right wanted label) p code q) :
    Codes s.scope s.procedure (sites₁ ++ sites₂) [label] False code := by
  unfold jumpEither at made
  split at made
  · simp only [made_bind, made_pure] at made
    obtain ⟨first, _, here, second, _, there, rfl, _⟩ := made
    exact (onLeft _ _ _ _ _ here).append (onRight _ _ _ _ _ there) (by simp)
      (fun _ out => .inl out) (fun _ out => .inl out) (by simp)
  · simp only [made_bind, made_pure] at made
    obtain ⟨past, _, _, first, _, here, second, _, there, rfl, _⟩ := made
    have mark : Codes s.scope s.procedure [] [] False [.label past] := codes_label
    have marked : Codes s.scope s.procedure sites₂ [label] False (second ++ [.label past]) :=
      (onRight _ _ _ _ _ there).append mark (by simp) (fun _ out => .inl out) (by simp) (by simp)
    rw [List.append_assoc]
    refine (onLeft _ _ _ _ _ here).append marked (by simp) (fun l out => .inr ?_)
      (fun _ out => .inl out) (by simp)
    rw [List.mem_singleton.1 out]
    simp [labelNames]

/-- **The code of a condition has all of its calls, and jumps to the label or to labels of
its own.** -/
theorem codes_condition (predefines : Predefines s.scope) (start : Nat) : ∀ (f : Formula)
    {wanted : Bool} {label : String} {p q : Pool} {code : List AssemblyLine},
    Made (s.jump start f wanted label) p code q →
      Codes s.scope s.procedure (formulaSites f) [label] False code := by
  intro f wanted label p q code made
  cases constant : isConstant s.scope f with
  | true =>
      rw [jump_known constant] at made
      simp only [made_bind, made_pure] at made
      obtain ⟨value, _, _, rfl, _⟩ := made
      refine ⟨fun line there => ?_, fun site there procedure =>
        absurd procedure (not_ofProgram_of_constant constant site there)⟩
      split at there
      · rw [List.mem_singleton.1 there]
        exact .jump rfl (.inl (List.mem_singleton.2 rfl))
      · cases there
  | false =>
      cases single : isSingle f with
      | true =>
          rw [jump_single constant single] at made
          exact codes_jumpTest predefines made
      | false =>
          cases f with
          | unary offset op operand =>
              cases op with
              | not =>
                  rw [jump_not constant] at made
                  rw [formulaSites]
                  exact codes_condition predefines start operand made
              | _ => cases single
          | binary offset op left right =>
              cases op with
              | and =>
                  rw [jump_and constant] at made
                  rw [formulaSites]
                  exact codes_jumpEither
                    (fun _ _ _ _ _ made => codes_condition predefines start left made)
                    (fun _ _ _ _ _ made => codes_condition predefines start right made) made
              | or =>
                  rw [jump_or constant] at made
                  rw [formulaSites]
                  exact codes_jumpEither
                    (fun _ _ _ _ _ made => codes_condition predefines start left made)
                    (fun _ _ _ _ _ made => codes_condition predefines start right made) made
              | _ => cases single
          | _ => cases single

end Conditions

/-! ## Statements -/

section Statements

variable {s : Setting}

theorem loads_assign (predefines : Predefines s.scope) {position : Position} {name : String}
    {op : Option AssignOp} {value : SourceFormula} {p q : Pool} {code : List AssemblyLine}
    (made : Made (s.assign position name op value) p code q) :
    StraightCode s.scope s.procedure (formulaSites value.formula) code := by
  simp only [assign, made_bind] at made
  obtain ⟨cell, _, targeted, made⟩ := made
  have stores : ∀ {calls : String → Prop},
      (AssemblyLine.unary .stwr cell).Straight (Stores s.scope s.procedure []) calls :=
    .store (.inl ⟨name, (made_target targeted).2⟩)
  split at made
  · simp only [made_bind, made_pure] at made
    obtain ⟨load, _, loaded, rfl, _⟩ := made
    refine (loads_lower predefines loaded).snoc fun line there => ?_
    rw [List.mem_singleton.1 there]
    exact stores
  · rename_i op
    simp only [made_bind, made_pure] at made
    obtain ⟨⟨before, operand⟩, _, operated, rfl, _⟩ := made
    refine (loads_lower_operand predefines operated).snoc fun line there => ?_
    simp only [List.mem_cons, List.not_mem_nil, or_false] at there
    rcases there with rfl | rfl | rfl
    · exact .quiet rfl
    · exact .quiet (by cases op <;> rfl)
    · exact stores

theorem codes_leave (predefines : Predefines s.scope) {position : Position}
    {value : Option SourceFormula} {p q : Pool} {code : List AssemblyLine}
    (made : Made (s.leave position value) p code q) :
    Codes s.scope s.procedure (statementSites (.return position value)) [] False code := by
  have back : Codes s.scope s.procedure [] [] False [.instruction .jmppop []] :=
    codes_of_flows fun line there => by
      rw [List.mem_singleton.1 there]
      exact .back
  unfold leave at made
  split at made
  · exact absurd made not_made_throw
  · cases value with
    | none =>
        simp only [made_bind, made_pure] at made
        obtain ⟨_, _, ⟨rfl, _⟩, rfl, _⟩ := made
        rwa [List.nil_append, statementSites]
    | some value =>
        simp only [made_bind, made_pure] at made
        obtain ⟨load, _, loaded, rfl, _⟩ := made
        rw [statementSites]
        have load : Codes s.scope s.procedure (formulaSites value.formula) [] False load :=
          (loads_lower predefines loaded).codes
        exact load.append back (by simp) (by simp) (by simp) (by simp)

mutual

/-- **The code of a statement has all of its calls, and jumps to its own labels.** -/
theorem codes_statement (s : Setting) (predefines : Predefines s.scope) : ∀ (statement : Statement)
    {p q : Pool} {code : List PlacedLine}, Made (s.statement statement) p code q →
      Codes s.scope s.procedure (statementSites statement) [] (hasAssembly statement = true)
        (code.map PlacedLine.line)
  | .assign position target op value, p, q, code, made => by
      rw [Setting.statement] at made
      simp only [made_bind, made_pure, made_get] at made
      obtain ⟨_, _, ⟨rfl, rfl⟩, lines, _, assigned, _, _, _, rfl, _⟩ := made
      rw [placed_lines, statementSites]
      have loads := loads_assign (s := { s with line := position.line }) predefines assigned
      exact loads.codes
  | .cond position branches otherwise, p, q, code, made => by
      rw [Setting.statement] at made
      simp only [made_bind, made_pure, made_get] at made
      obtain ⟨_, _, ⟨rfl, rfl⟩, last, _, _, first, _, onBranches, rest, _, onRest, _, _, _, rfl, _⟩ :=
        made
      have branched := codes_branches { s with line := position.line } predefines _ _ _ branches
        onBranches
      have other := codes_block s predefines otherwise onRest
      have mark : Codes s.scope s.procedure [] [] False [.label last] := codes_label
      have ended : Codes s.scope s.procedure (blockSites otherwise) []
          (blockAssembly otherwise = true) (rest.map PlacedLine.line ++ [.label last]) :=
        other.append mark (by simp) (by simp) (by simp) (by simp)
      rw [List.map_append, List.map_append, placed_lines, List.append_assoc, statementSites]
      refine branched.append ended (by simp) (fun l out => .inr ?_) (by simp) (by simp [hasAssembly])
      rw [List.mem_singleton.1 out]
      simp [labelNames]
  | .loop position condition body, p, q, code, made => by
      rw [Setting.statement] at made
      simp only [made_bind, made_pure, made_get] at made
      obtain ⟨_, _, ⟨rfl, rfl⟩, top, _, _, last, _, _, test, _, tested, inner, _, onBody, _, _, _,
        rfl, _⟩ := made
      have condition' : Codes s.scope s.procedure (formulaSites condition.formula) [last] False
          test :=
        codes_condition (s := { s with line := position.line }) predefines _ _ tested
      have body' := codes_block s predefines body onBody
      have mark : ∀ l, Codes s.scope s.procedure [] [] False [.label l] := fun _ => codes_label
      have jump : Codes s.scope s.procedure [] [top] False [.jump top] := codes_jump rfl
      have start : Codes s.scope s.procedure (formulaSites condition.formula) [last] False
          ([.label top] ++ test) :=
        (mark top).append condition' (by simp) (by simp) (fun _ out => .inl out) (by simp)
      have ending : Codes s.scope s.procedure [] [top] False ([.jump top] ++ [.label last]) :=
        jump.append (mark last) (by simp) (fun _ out => .inl out) (by simp) (by simp)
      have behind : Codes s.scope s.procedure (blockSites body) [top] (blockAssembly body = true)
          (inner.map PlacedLine.line ++ ([.jump top] ++ [.label last])) :=
        body'.append ending (by simp) (by simp) (fun _ out => .inl out) (by simp)
      have whole : Codes s.scope s.procedure (statementSites (.loop position condition body)) []
          (hasAssembly (.loop position condition body) = true) (([.label top] ++ test) ++
            (inner.map PlacedLine.line ++ ([.jump top] ++ [.label last]))) :=
        start.append behind (by simp [statementSites])
          (fun l out => .inr (by rw [List.mem_singleton.1 out]; simp [labelNames]))
          (fun l out => .inr (by rw [List.mem_singleton.1 out]; simp [labelNames]))
          (by simp [hasAssembly])
      simpa [placed_lines] using whole
  | .call position name arguments, p, q, code, made => by
      rw [Setting.statement] at made
      simp only [made_bind, made_pure, made_get] at made
      obtain ⟨_, _, ⟨rfl, rfl⟩, lines, _, called, _, _, _, rfl, _⟩ := made
      rw [placed_lines, statementSites]
      have loads := loads_call (s := { s with line := position.line }) predefines
        (fun a there => ?_) called
      · simp only [lowerCallArguments, List.map_map, Function.comp_def, Setting.formula,
          lower_formula] at loads
        exact loads.codes
      · obtain ⟨argument, _, rfl⟩ := List.mem_map.1 there
        exact ⟨⟨_, by rw [Setting.formula, lower_formula]⟩,
          lowersTo_lower (s := { s with line := position.line }) predefines _ _⟩
  | .return position value, p, q, code, made => by
      rw [Setting.statement] at made
      simp only [made_bind, made_pure, made_get] at made
      obtain ⟨_, _, ⟨rfl, rfl⟩, lines, _, left, _, _, _, rfl, _⟩ := made
      rw [placed_lines]
      have codes := codes_leave (s := { s with line := position.line }) predefines left
      exact ⟨fun line there => (codes.flows line there).mono (fun _ stores => stores)
        (fun _ calls => calls) (fun _ jumps => jumps) False.elim, codes.calls⟩
  | .pass _, p, q, code, made => by
      rw [Setting.statement] at made
      obtain ⟨rfl, _⟩ := made_pure.1 made
      exact codes_nil
  | .assembly position text, p, q, code, made => by
      rw [Setting.statement] at made
      obtain ⟨rfl, _⟩ := made_pure.1 made
      rw [placed_lines, statementSites]
      exact codes_of_flows fun line there => by
        rw [List.mem_singleton.1 there]
        exact .verbatim (by rw [hasAssembly])

theorem codes_branches (s : Setting) (predefines : Predefines s.scope) (depth : Nat)
    (last : String) (ends : Bool) : ∀ (branches : List (SourceFormula × List Statement))
    {p q : Pool} {code : List PlacedLine}, Made (s.branches depth last ends branches) p code q →
      Codes s.scope s.procedure (branchesSites branches) [last] (branchesAssembly branches = true)
        (code.map PlacedLine.line)
  | [], p, q, code, made => by
      rw [Setting.branches] at made
      obtain ⟨rfl, _⟩ := made_pure.1 made
      exact codes_nil
  | (condition, body) :: rest, p, q, code, made => by
      rw [Setting.branches] at made
      split at made
      · rename_i final
        obtain rfl : rest = [] := List.isEmpty_iff.1 final.2
        simp only [made_bind, made_pure] at made
        obtain ⟨_, _, _, test, _, tested, inner, _, onBody, rfl, _⟩ := made
        have condition' := codes_condition predefines _ _ tested
        have body' := codes_block s predefines body onBody
        rw [List.map_append, placed_lines]
        exact condition'.append body' (by simp [branchesSites]) (fun _ out => .inl out) (by simp)
          (by simp [branchesAssembly])
      · simp only [made_bind, made_pure] at made
        obtain ⟨next, _, _, _, _, _, test, _, tested, inner, _, onBody, more, _, onRest, rfl, _⟩ :=
          made
        have condition' := codes_condition predefines _ _ tested
        have body' := codes_block s predefines body onBody
        have rest' := codes_branches s predefines depth last ends rest onRest
        have mark : Codes s.scope s.procedure [] [] False [.label next] := codes_label
        have jump : Codes s.scope s.procedure [] [last] False [.jump last] := codes_jump rfl
        have first : Codes s.scope s.procedure
            (formulaSites condition.formula ++ blockSites body) [next] (blockAssembly body = true)
            (test ++ inner.map PlacedLine.line) :=
          condition'.append body' (by simp) (fun _ out => .inl out) (by simp) (by simp)
        have second : Codes s.scope s.procedure [] [last] False ([.jump last] ++ [.label next]) :=
          jump.append mark (by simp) (fun _ out => .inl out) (by simp) (by simp)
        have behind : Codes s.scope s.procedure (branchesSites rest) [last]
            (branchesAssembly rest = true)
            (([.jump last] ++ [.label next]) ++ more.map PlacedLine.line) :=
          second.append rest' (by simp) (fun _ out => .inl out) (fun _ out => .inl out) (by simp)
        have whole : Codes s.scope s.procedure (branchesSites ((condition, body) :: rest)) [last]
            (branchesAssembly ((condition, body) :: rest) = true)
            ((test ++ inner.map PlacedLine.line) ++
              (([.jump last] ++ [.label next]) ++ more.map PlacedLine.line)) :=
          first.append behind (by simp [branchesSites, or_assoc])
            (fun l out => .inr (by rw [List.mem_singleton.1 out]; simp [labelNames]))
            (fun _ out => .inl out) (by simp [branchesAssembly])
        simpa [placed_lines] using whole

theorem codes_block (s : Setting) (predefines : Predefines s.scope) :
    ∀ (statements : List Statement) {p q : Pool} {code : List PlacedLine},
    Made (s.block statements) p code q →
      Codes s.scope s.procedure (blockSites statements) [] (blockAssembly statements = true)
        (code.map PlacedLine.line)
  | [], p, q, code, made => by
      rw [Setting.block] at made
      obtain ⟨rfl, _⟩ := made_pure.1 made
      exact codes_nil
  | first :: rest, p, q, code, made => by
      rw [Setting.block] at made
      simp only [made_bind, made_pure] at made
      obtain ⟨head, _, here, tail, _, there, rfl, _⟩ := made
      rw [List.map_append]
      exact (codes_statement s predefines first here).append (codes_block s predefines rest there)
        (by simp [blockSites]) (by simp) (by simp) (by simp [blockAssembly])

end

end Statements

end PulseSequencer.Ppp
