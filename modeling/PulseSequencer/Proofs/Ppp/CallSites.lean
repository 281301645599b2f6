import PulseSequencer.Proofs.Ppp.Growth
import PulseSequencer.Proofs.Ppp.Subroutines
import Mathlib.Data.List.Forall2

/-
# PulseSequencer.Proofs.Ppp.CallSites -- the calls of a source in its code

`StraightCode` says two things of code that loads a formula: it runs straight on and stores
only in variables in scope, scratch cells, and the parameters of the procedures that it
calls; and each call of the formula is somewhere in it, with its arguments stored one
after the other (`callLines`).  `Codes` says the same of statements, whose jumps in
addition stay within their code.  Both follow the lowering piece by piece.
-/

namespace PulseSequencer.Ppp

open Setting

set_option autoImplicit false

/-! ## Calls of a source -/

/-- A call: the name, and the arguments. -/
structure Site where
  name : String
  arguments : List Formula

mutual

/-- The calls of a formula, also those within arguments. -/
def formulaSites : Formula → List Site
  | .int _ _ | .float _ _ | .quantity _ _ _ | .text _ _ | .name _ _ => []
  | .list _ items => formulasSites items
  | .dict _ items => pairsSites items
  | .unary _ _ operand => formulaSites operand
  | .binary _ _ left right => formulaSites left ++ formulaSites right
  | .call _ function args => ⟨function, args⟩ :: formulasSites args
  | .index _ target key => formulaSites target ++ formulaSites key

def formulasSites : List Formula → List Site
  | [] => []
  | f :: rest => formulaSites f ++ formulasSites rest

def pairsSites : List (Formula × Formula) → List Site
  | [] => []
  | (k, v) :: rest => formulaSites k ++ formulaSites v ++ pairsSites rest

end

mutual

/-- The calls of a statement. -/
def statementSites : Statement → List Site
  | .assign _ _ _ value => formulaSites value.formula
  | .cond _ branches otherwise => branchesSites branches ++ blockSites otherwise
  | .loop _ condition body => formulaSites condition.formula ++ blockSites body
  | .call _ name arguments =>
      ⟨name, arguments.map (·.value.formula)⟩ ::
        formulasSites (arguments.map (·.value.formula))
  | .return _ (some value) => formulaSites value.formula
  | .return _ none | .pass _ | .assembly _ _ => []

def branchesSites : List (SourceFormula × List Statement) → List Site
  | [] => []
  | (condition, body) :: rest =>
      formulaSites condition.formula ++ blockSites body ++ branchesSites rest

def blockSites : List Statement → List Site
  | [] => []
  | first :: rest => statementSites first ++ blockSites rest

end

theorem mem_formulasSites {site : Site} {fs : List Formula} :
    site ∈ formulasSites fs ↔ ∃ f ∈ fs, site ∈ formulaSites f := by
  induction fs with
  | nil => simp [formulasSites]
  | cons f rest ih => simp [formulasSites, ih]

/-! ## The code of a call -/

/-- The code that stores the arguments of a call in the cells of its parameters. -/
def passLines : List String → List (List AssemblyLine) → List AssemblyLine
  | cell :: cells, load :: loads => load ++ .unary .stwr cell :: passLines cells loads
  | _, _ => []

/-- The code of a call: its arguments are stored, and then the procedure is entered. -/
def callLines (name : String) (cells : List String) (loads : List (List AssemblyLine)) :
    List AssemblyLine :=
  passLines cells loads ++ [.unary .jmppush name]

/-- The code that a formula is loaded with somewhere in a scope. -/
def LoadOf (scope : Scope) (owner : String) (formula : Formula) (load : List AssemblyLine) : Prop :=
  ∃ (s : Setting) (start : Nat) (p q : Pool), s.scope = scope ∧ s.procedure = owner ∧
    Made (s.lower start formula).load p load q

/-- A name stands for something that is no command. -/
def OfProgram (scope : Scope) (name : String) : Prop :=
  ∃ symbol, scope.lookup name = some symbol ∧ ∀ b, symbol ≠ .builtin b

/-- The code of a call is part of the code. -/
def HasCall (scope : Scope) (owner : String) (site : Site) (code : List AssemblyLine) : Prop :=
  ∃ cells loads, scope.lookup site.name = some (.procedure cells) ∧
    cells.length = site.arguments.length ∧
    List.Forall₂ (LoadOf scope owner) site.arguments loads ∧
    callLines site.name cells loads <:+: code

/-- A cell that a variable or parameter in scope has. -/
def IsCell (scope : Scope) (cell : String) : Prop :=
  ∃ name kind slot, scope.lookup name = some (.cell kind slot cell)

/-- The cells that code of a procedure stores in: variables, scratch cells, and the
parameters of what it calls. -/
def Stores (scope : Scope) (owner : String) (sites : List Site) (cell : String) : Prop :=
  IsCell scope cell ∨ (∃ i, cell = scratchName owner i) ∨
    ∃ site ∈ sites, ∃ cells, scope.lookup site.name = some (.procedure cells) ∧ cell ∈ cells

/-- The procedures that code with these calls enters. -/
def Calls (scope : Scope) (sites : List Site) (name : String) : Prop :=
  (∃ site ∈ sites, site.name = name) ∧ ∃ cells, scope.lookup name = some (.procedure cells)

/-- Straight code with all the calls. -/
structure StraightCode (scope : Scope) (owner : String) (sites : List Site)
    (code : List AssemblyLine) :
    Prop where
  straight : ∀ line ∈ code, line.Straight (Stores scope owner sites) (Calls scope sites)
  calls : ∀ site ∈ sites, OfProgram scope site.name → HasCall scope owner site code

/-- Code with all the calls whose jumps lead to its own labels or to `outs`. -/
structure Codes (scope : Scope) (owner : String) (sites : List Site) (outs : List String)
    (verbatim : Prop) (code : List AssemblyLine) : Prop where
  flows : ∀ line ∈ code, line.Flows (Stores scope owner sites) (Calls scope sites)
    (fun l => l ∈ outs ∨ l ∈ labelNames code) verbatim
  calls : ∀ site ∈ sites, OfProgram scope site.name → HasCall scope owner site code

section Pieces

variable {scope : Scope} {owner : String} {sites sites₁ sites₂ : List Site} {site : Site}
  {code a b : List AssemblyLine} {outs outs₁ outs₂ : List String} {verbatim first second : Prop}

theorem HasCall.within (has : HasCall scope owner site a) (part : a <:+: code) :
    HasCall scope owner site code := by
  obtain ⟨cells, loads, found, size, made, inside⟩ := has
  exact ⟨cells, loads, found, size, made, inside.trans part⟩

theorem Stores.mono {cell : String} (stores : Stores scope owner sites₁ cell)
    (part : sites₁ ⊆ sites) : Stores scope owner sites cell := by
  rcases stores with own | scratch | ⟨site, there, rest⟩
  · exact .inl own
  · exact .inr (.inl scratch)
  · exact .inr (.inr ⟨site, part there, rest⟩)

theorem Calls.mono {name : String} (calls : Calls scope sites₁ name) (part : sites₁ ⊆ sites) :
    Calls scope sites name := by
  obtain ⟨⟨site, there, named⟩, procedure⟩ := calls
  exact ⟨⟨site, part there, named⟩, procedure⟩

/-- Straight lines without a call of a procedure. -/
theorem loads_of_straight (straight : ∀ line ∈ code,
      line.Straight (Stores scope owner sites) (Calls scope sites))
    (none : ∀ site ∈ sites, ¬OfProgram scope site.name) : StraightCode scope owner sites code :=
  ⟨straight, fun site there procedure => absurd procedure (none site there)⟩

theorem StraightCode.append (left : StraightCode scope owner sites₁ a)
    (right : StraightCode scope owner sites₂ b)
    (same : ∀ site, site ∈ sites ↔ site ∈ sites₁ ∨ site ∈ sites₂) :
    StraightCode scope owner sites (a ++ b) where
  straight line there := by
    rcases List.mem_append.1 there with inLeft | inRight
    · exact (left.straight line inLeft).mono
        (fun _ stores => stores.mono fun site here => (same site).2 (.inl here))
        (fun _ calls => calls.mono fun site here => (same site).2 (.inl here))
    · exact (right.straight line inRight).mono
        (fun _ stores => stores.mono fun site here => (same site).2 (.inr here))
        (fun _ calls => calls.mono fun site here => (same site).2 (.inr here))
  calls site there procedure := by
    rcases (same site).1 there with inLeft | inRight
    · exact (left.calls site inLeft procedure).within (List.prefix_append a b).isInfix
    · exact (right.calls site inRight procedure).within (List.suffix_append a b).isInfix

/-- Lines behind that call nothing. -/
theorem StraightCode.snoc (left : StraightCode scope owner sites a)
    (straight : ∀ line ∈ b, line.Straight (Stores scope owner []) (Calls scope [])) :
    StraightCode scope owner sites (a ++ b) :=
  left.append (loads_of_straight straight (by simp)) (by simp)

theorem Codes.append (left : Codes scope owner sites₁ outs₁ first a)
    (right : Codes scope owner sites₂ outs₂ second b)
    (same : ∀ site, site ∈ sites ↔ site ∈ sites₁ ∨ site ∈ sites₂)
    (leftOuts : ∀ l ∈ outs₁, l ∈ outs ∨ l ∈ labelNames (a ++ b))
    (rightOuts : ∀ l ∈ outs₂, l ∈ outs ∨ l ∈ labelNames (a ++ b))
    (loose : first ∨ second → verbatim) : Codes scope owner sites outs verbatim (a ++ b) where
  flows line there := by
    have labels : labelNames (a ++ b) = labelNames a ++ labelNames b := labelNames_append a b
    rcases List.mem_append.1 there with inLeft | inRight
    · exact (left.flows line inLeft).mono
        (fun _ stores => stores.mono fun site here => (same site).2 (.inl here))
        (fun _ calls => calls.mono fun site here => (same site).2 (.inl here))
        (fun l jumps => jumps.elim (leftOuts l) fun own =>
          .inr (labels ▸ List.mem_append_left _ own)) (fun here => loose (.inl here))
    · exact (right.flows line inRight).mono
        (fun _ stores => stores.mono fun site here => (same site).2 (.inr here))
        (fun _ calls => calls.mono fun site here => (same site).2 (.inr here))
        (fun l jumps => jumps.elim (rightOuts l) fun own =>
          .inr (labels ▸ List.mem_append_right _ own)) (fun here => loose (.inr here))
  calls site there procedure := by
    rcases (same site).1 there with inLeft | inRight
    · exact (left.calls site inLeft procedure).within (List.prefix_append a b).isInfix
    · exact (right.calls site inRight procedure).within (List.suffix_append a b).isInfix

theorem StraightCode.codes (loads : StraightCode scope owner sites code) :
    Codes scope owner sites outs verbatim code :=
  ⟨fun line there => (loads.straight line there).flows, loads.calls⟩

/-- Lines without calls. -/
theorem codes_of_flows (flows : ∀ line ∈ code, line.Flows (Stores scope owner []) (Calls scope [])
    (fun l => l ∈ outs ∨ l ∈ labelNames code) verbatim) :
    Codes scope owner [] outs verbatim code :=
  ⟨flows, by simp⟩

theorem codes_jump {op : Opcode} {label : String} (jump : op.isJump = true) :
    Codes scope owner [] [label] verbatim [.unary op label] :=
  codes_of_flows fun line there => by
    rw [List.mem_singleton.1 there]
    exact .jump jump (.inl (List.mem_singleton.2 rfl))

theorem codes_label {label : String} : Codes scope owner [] [] verbatim [.label label] :=
  codes_of_flows fun line there => by
    rw [List.mem_singleton.1 there]
    exact .label

theorem codes_nil : Codes scope owner [] outs verbatim [] := codes_of_flows (by simp)

end Pieces

/-! ## Formulas -/

/-- What a formula is lowered to loads it, and makes it an operand, with all its calls. -/
structure LowersTo (s : Setting) (l : Lowered) : Prop where
  load : ∀ p code q, Made l.load p code q →
    StraightCode s.scope s.procedure (formulaSites l.formula) code
  operand : ∀ p code cell q, Made l.operand p (code, cell) q →
    StraightCode s.scope s.procedure (formulaSites l.formula) code

/-- The commands of a scope are those that there are. -/
def Predefines (scope : Scope) : Prop :=
  ∀ name b, scope.lookup name = some (.builtin b) → b ∈ Builtin.all

mutual

theorem not_ofProgram_of_constant {scope : Scope} : ∀ {f : Formula},
    isConstant scope f = true → ∀ site ∈ formulaSites f, ¬OfProgram scope site.name
  | .int _ _, _ | .float _ _, _ | .quantity _ _ _, _ | .text _ _, _ | .name _ _, _ => by
      simp [formulaSites]
  | .unary _ _ operand, constant => by
      rw [isConstant] at constant
      rw [formulaSites]
      exact not_ofProgram_of_constant constant
  | .binary _ _ left right, constant => by
      rw [isConstant, Bool.and_eq_true] at constant
      rw [formulaSites]
      intro site there
      exact (List.mem_append.1 there).elim (not_ofProgram_of_constant constant.1 site)
        (not_ofProgram_of_constant constant.2 site)
  | .index _ target key, constant => by
      rw [isConstant, Bool.and_eq_true] at constant
      rw [formulaSites]
      intro site there
      exact (List.mem_append.1 there).elim (not_ofProgram_of_constant constant.1 site)
        (not_ofProgram_of_constant constant.2 site)
  | .call _ function args, constant => by
      rw [isConstant, Bool.and_eq_true] at constant
      rw [formulaSites]
      rintro site there ofProgram
      rcases List.mem_cons.1 there with rfl | nested
      · obtain ⟨symbol, found, _⟩ := ofProgram
        rw [found] at constant
        cases constant.1
      · exact not_ofProgram_of_allConstant constant.2 site nested ofProgram
  | .list _ items, constant => by
      rw [isConstant] at constant
      rw [formulaSites]
      exact not_ofProgram_of_allConstant constant
  | .dict _ items, constant => by
      rw [isConstant] at constant
      rw [formulaSites]
      exact not_ofProgram_of_allConstantPairs constant

theorem not_ofProgram_of_allConstant {scope : Scope} : ∀ {fs : List Formula},
    allConstant scope fs = true → ∀ site ∈ formulasSites fs, ¬OfProgram scope site.name
  | [], _ => by simp [formulasSites]
  | f :: rest, constant => by
      rw [allConstant, Bool.and_eq_true] at constant
      rw [formulasSites]
      intro site there
      exact (List.mem_append.1 there).elim (not_ofProgram_of_constant constant.1 site)
        (not_ofProgram_of_allConstant constant.2 site)

theorem not_ofProgram_of_allConstantPairs {scope : Scope} : ∀ {fs : List (Formula × Formula)},
    allConstantPairs scope fs = true → ∀ site ∈ pairsSites fs, ¬OfProgram scope site.name
  | [], _ => by simp [pairsSites]
  | (k, v) :: rest, constant => by
      rw [allConstantPairs, Bool.and_eq_true, Bool.and_eq_true] at constant
      rw [pairsSites]
      intro site there
      rcases List.mem_append.1 there with inPair | inRest
      · exact (List.mem_append.1 inPair).elim (not_ofProgram_of_constant constant.1.1 site)
          (not_ofProgram_of_constant constant.1.2 site)
      · exact not_ofProgram_of_allConstantPairs constant.2 site inRest

end

section Formulas

variable {s : Setting}

theorem straight_scratch {p q : Pool} {cell : String} (taken : Made s.takeScratch p cell q) :
    ∀ line ∈ [AssemblyLine.unary .stwr cell],
      line.Straight (Stores s.scope s.procedure []) (Calls s.scope []) := by
  intro line there
  rw [List.mem_singleton.1 there]
  exact .store (.inr (.inl ⟨_, (made_takeScratch.1 taken).1⟩))

theorem straight_quiet {stores calls : String → Prop} {op : Opcode} {operands : List String}
    (quiet : op.isQuiet = true) :
    ∀ line ∈ [AssemblyLine.instruction op operands], line.Straight stores calls := by
  intro line there
  rw [List.mem_singleton.1 there]
  exact .quiet quiet

theorem lowersTo_complete {start : Nat} {formula : Formula} {load : Lowering (List AssemblyLine)}
    (loads : ∀ p code q, Made load p code q →
      StraightCode s.scope s.procedure (formulaSites formula) code) :
    LowersTo s (s.complete start formula load) where
  load p code q made := by
    rw [made_complete_load] at made
    split at made
    · rename_i constant
      obtain ⟨cell, _, rfl⟩ := made
      exact loads_of_straight (straight_quiet rfl) (not_ofProgram_of_constant constant)
    · exact loads p code q made
  operand p code cell q made := by
    rcases made_complete_operand made with ⟨constant, _, rfl⟩ |
      ⟨_, ⟨offset, name, kind, slot, rfl, _, rfl, _⟩ | ⟨before, middle, loaded, taken, rfl⟩⟩
    · exact loads_of_straight (by simp) (not_ofProgram_of_constant constant)
    · exact loads_of_straight (by simp) (by simp [complete, formulaSites])
    · exact (loads p before middle loaded).snoc (straight_scratch taken)

theorem loads_loadName {offset n : Nat} {name : String} {p q : Pool} {code : List AssemblyLine}
    (made : Made (s.loadName offset name) p code q) :
    StraightCode s.scope s.procedure (formulaSites (.name n name)) code := by
  unfold loadName at made
  split at made
  · obtain ⟨rfl, rfl⟩ := made_pure.1 made
    exact loads_of_straight (straight_quiet rfl) (by simp [formulaSites])
  all_goals exact absurd made not_made_throw

theorem loads_loadBinary {offset n : Nat} {op : BinaryOp} {left right : Lowered} {p q : Pool}
    {code : List AssemblyLine} (onLeft : LowersTo s left) (onRight : LowersTo s right)
    (made : Made (s.loadBinary offset op left right) p code q) :
    StraightCode s.scope s.procedure (formulaSites (.binary n op left.formula right.formula)) code := by
  unfold loadBinary at made
  split at made
  · rename_i opcode arithmetic
    simp only [made_bind, made_pure] at made
    obtain ⟨⟨before, cell⟩, _, operand, load, _, loaded, rfl, rfl⟩ := made
    have quiet : opcode.isQuiet = true := by
      cases op <;> first | (obtain rfl := Option.some.inj arithmetic; rfl) | cases arithmetic
    refine ((onRight.operand _ _ _ _ operand).append (onLeft.load _ _ _ loaded)
      fun site => ?_).snoc (straight_quiet quiet)
    rw [formulaSites, List.mem_append, or_comm]
  · split at made <;> exact absurd made not_made_throw

theorem loads_loadUnary {offset n : Nat} {op : UnaryOp} {operand : Lowered} {p q : Pool}
    {code : List AssemblyLine} (lowers : LowersTo s operand)
    (made : Made (s.loadUnary offset op operand) p code q) :
    StraightCode s.scope s.procedure (formulaSites (.unary n op operand.formula)) code := by
  rw [formulaSites]
  unfold loadUnary at made
  split at made
  · exact absurd made not_made_throw
  · exact lowers.load _ _ _ made
  · simp only [made_bind, made_pure] at made
    obtain ⟨⟨before, cell⟩, _, operand, rfl, rfl⟩ := made
    refine (lowers.operand _ _ _ _ operand).snoc fun line there => ?_
    rcases List.mem_cons.1 there with rfl | there
    · exact .quiet rfl
    · rw [List.mem_singleton.1 there]
      exact .quiet rfl

end Formulas

/-! ## Commands -/

/-- An instruction of a command that goes on to the next one and stores in a target at
most. -/
def TemplateLine.runsOn (b : Builtin) (line : TemplateLine) : Bool :=
  line.opcode.isQuiet || line.opcode == .stwr && match line.operands with
    | [.argument n] => b.params.all fun param => param.name != n || param.kind == .target
    | _ => false

theorem runsOn_of_mem {b : Builtin} (known : b ∈ Builtin.all) {line : TemplateLine}
    (there : line ∈ b.template) : line.runsOn b = true := by
  have all : (Builtin.all.all fun b => b.template.all (TemplateLine.runsOn b)) = true := by decide
  exact List.all_eq_true.1 (List.all_eq_true.1 all b known) line there

/-- A command loads W with one argument at most. -/
theorem accumulator_unique {b : Builtin} (known : b ∈ Builtin.all) {x y : Param}
    (hx : x ∈ b.params) (hy : y ∈ b.params) (kx : x.kind = .accumulator)
    (ky : y.kind = .accumulator) : x = y := by
  have all : (Builtin.all.all fun b => b.params.all fun x => b.params.all fun y =>
      x.kind != .accumulator || y.kind != .accumulator || x == y) = true := by decide
  have here := List.all_eq_true.1 (List.all_eq_true.1 (List.all_eq_true.1 all b known) x hx) y hy
  simpa [kx, ky] using here

section Commands

variable {s : Setting} {b : Builtin} {position : Position}

/-- The code of an operand is that of its argument; a target is a cell. -/
theorem loads_operandOf {param : Param} {argument : Lowered} {p q : Pool}
    {code : List AssemblyLine} {value : String} (lowers : LowersTo s argument)
    (made : Made (s.operandOf b position param argument) p (code, value) q) :
    (param.kind = .accumulator ∧ code = [] ∨
      StraightCode s.scope s.procedure (formulaSites argument.formula) code) ∧
    (param.kind = .target → IsCell s.scope value) := by
  unfold operandOf at made
  split at made
  · rename_i kind
    exact ⟨.inr (lowers.operand _ _ _ _ made), fun target => by cases kind.symm.trans target⟩
  · rename_i kind
    simp only [made_bind, made_pure, Prod.mk.injEq] at made
    obtain ⟨_, _, made, ⟨rfl, _⟩, _⟩ := made
    refine ⟨.inr (loads_of_straight (by simp) ?_), fun target => by cases kind.symm.trans target⟩
    unfold channel at made
    split at made
    · exact absurd made not_made_throw
    · rename_i constant
      exact not_ofProgram_of_constant (by simpa using constant)
  · split at made
    · rename_i formula
      simp only [made_bind, made_pure, Prod.mk.injEq] at made
      obtain ⟨cell, _, made, ⟨rfl, rfl⟩, _⟩ := made
      exact ⟨.inr (loads_of_straight (by simp) (by simp [formula, formulaSites])),
        fun _ => ⟨_, (made_target made).2⟩⟩
    · exact absurd made not_made_throw
  · rename_i kind
    simp only [made_pure, Prod.mk.injEq] at made
    obtain ⟨⟨rfl, _⟩, _⟩ := made
    exact ⟨.inl ⟨kind, rfl⟩, fun target => by cases kind.symm.trans target⟩

/-- The code of the operands has that of every bound argument but the one for W. -/
theorem made_operands {bound : Table String Lowered} {sites : List Site}
    (lowers : ∀ n l, bound.get? n = some l → LowersTo s l)
    (covers : ∀ n l, bound.get? n = some l → formulaSites l.formula ⊆ sites) :
    ∀ {params : List Param} {done result : Operands} {p q : Pool},
    Made (s.operands b position bound done params) p result q →
      done.code <+: result.code ∧
      (∀ line ∈ result.code, line ∈ done.code ∨
        line.Straight (Stores s.scope s.procedure sites) (Calls s.scope sites)) ∧
      (∀ param ∈ params, param.kind ≠ .accumulator → ∀ l, bound.get? param.name = some l →
        ∀ site ∈ formulaSites l.formula, OfProgram s.scope site.name →
          HasCall s.scope s.procedure site result.code) ∧
      ∀ n c, result.values.get? n = some c → done.values.get? n = some c ∨
        ∃ param ∈ params, param.name = n ∧ (param.kind = .target → IsCell s.scope c)
  | [], done, result, p, q, made => by
      obtain ⟨rfl, rfl⟩ := made_pure.1 made
      simp +contextual
  | param :: rest, done, result, p, q, made => by
      rw [operands] at made
      split at made
      · rename_i absent
        split at made
        · obtain ⟨grows, straight, calls, values⟩ := made_operands lowers covers made
          refine ⟨grows, straight, fun other there kind l found => ?_, fun n c found => ?_⟩
          · rcases List.mem_cons.1 there with rfl | later
            · cases absent.symm.trans found
            · exact calls other later kind l found
          · rcases values n c found with old | ⟨other, later, rest⟩
            · exact .inl old
            · exact .inr ⟨other, List.mem_cons_of_mem _ later, rest⟩
        · exact absurd made not_made_throw
      · rename_i argument found
        simp only [made_bind] at made
        obtain ⟨⟨code, value⟩, middle, here, made⟩ := made
        obtain ⟨loads, target⟩ := loads_operandOf (lowers _ _ found) here
        obtain ⟨grows, straight, calls, values⟩ := made_operands lowers covers made
        have inside : code <:+: result.code :=
          (List.suffix_append done.code code).isInfix.trans grows.isInfix
        refine ⟨(List.prefix_append _ _).trans grows, fun line there => ?_,
          fun other there kind l bound' => ?_, fun n c valued => ?_⟩
        · rcases straight line there with old | new
          · rcases List.mem_append.1 old with older | own
            · exact .inl older
            · rcases loads with ⟨_, rfl⟩ | loads
              · exact absurd own List.not_mem_nil
              · exact .inr ((loads.straight line own).mono
                  (fun _ stores => stores.mono (covers _ _ found))
                  (fun _ calls => calls.mono (covers _ _ found)))
          · exact .inr new
        · rcases List.mem_cons.1 there with rfl | later
          · obtain rfl := Option.some.inj (found.symm.trans bound')
            rcases loads with ⟨same, _⟩ | loads
            · exact absurd same kind
            · exact fun site there procedure => (loads.calls site there procedure).within inside
          · exact calls other later kind l bound'
        · rcases values n c valued with old | ⟨other, later, rest⟩
          · dsimp only at old
            split at old
            · exact .inl old
            · rw [Table.get?_insert] at old
              split at old
              · rename_i same
                obtain rfl := Option.some.inj old
                exact .inr ⟨param, List.mem_cons_self .., same.symm, target⟩
              · exact .inl old
          · exact .inr ⟨other, List.mem_cons_of_mem _ later, rest⟩

/-- The instructions of a command, where its target is a cell. -/
theorem straight_expand {sites : List Site} {values : Table String String} (known : b ∈ Builtin.all)
    (target : ∀ n c, values.get? n = some c →
      ∃ param ∈ b.params, param.name = n ∧ (param.kind = .target → IsCell s.scope c)) :
    ∀ line ∈ expand b values,
      line.Straight (Stores s.scope s.procedure sites) (Calls s.scope sites) := by
  intro line there
  obtain ⟨template, inTemplate, filled⟩ := List.mem_filterMap.1 there
  obtain ⟨operands, filled, rfl⟩ := Option.map_eq_some_iff.1 filled
  have runsOn := runsOn_of_mem known inTemplate
  rw [TemplateLine.runsOn, Bool.or_eq_true, Bool.and_eq_true] at runsOn
  rcases runsOn with quiet | ⟨store, only⟩
  · exact .quiet quiet
  · split at only
    · rename_i n shape
      rw [TemplateLine.fill?, shape] at filled
      cases value : values.get? n with
      | none => simp [value] at filled
      | some c =>
          obtain rfl : [c] = operands := by simpa [value] using filled
          obtain ⟨param, inParams, named, cell⟩ := target n c value
          have kind := List.all_eq_true.1 only param inParams
          rw [named] at kind
          rw [eq_of_beq store]
          exact .store (.inl (cell (by simpa using kind)))
    · cases only

/-- The code that loads W has that of the argument for it. -/
theorem made_loadAccumulator {bound : Table String Lowered} {sites : List Site}
    (known : b ∈ Builtin.all) (lowers : ∀ n l, bound.get? n = some l → LowersTo s l)
    (covers : ∀ n l, bound.get? n = some l → formulaSites l.formula ⊆ sites) {p q : Pool}
    {code : List AssemblyLine} (made : Made (loadAccumulator b bound) p code q) :
    (∀ line ∈ code, line.Straight (Stores s.scope s.procedure sites) (Calls s.scope sites)) ∧
    ∀ param ∈ b.params, param.kind = .accumulator → ∀ l, bound.get? param.name = some l →
      StraightCode s.scope s.procedure (formulaSites l.formula) code := by
  have contains : ∀ {n : String} {l : Lowered}, bound.get? n = some l → bound.contains n = true := by
    intro n l found
    rw [Table.contains, found]
    rfl
  unfold loadAccumulator at made
  split at made
  · rename_i absent
    obtain ⟨rfl, rfl⟩ := made_pure.1 made
    refine ⟨by simp, fun param there kind l found => ?_⟩
    have refuted := List.find?_eq_none.1 absent param there
    simp [kind, contains found] at refuted
  · rename_i chosen first
    have wanted := List.find?_some first
    obtain ⟨isAccumulator, bound'⟩ := Bool.and_eq_true_iff.1 wanted
    split at made
    · rename_i absent
      simp [Table.contains, absent] at bound'
    · rename_i argument found
      have loads := (lowers _ _ found).load _ _ _ made
      refine ⟨fun line there => (loads.straight line there).mono
        (fun _ stores => stores.mono (covers _ _ found))
        (fun _ calls => calls.mono (covers _ _ found)), fun param there kind l here => ?_⟩
      obtain rfl := accumulator_unique known there (List.mem_of_find?_eq_some first) kind
        (eq_of_beq isAccumulator)
      obtain rfl := Option.some.inj (found.symm.trans here)
      exact loads

/-- The code of a command. -/
theorem loads_callBuiltin {name : String} {arguments : List LoweredArgument} {p q : Pool}
    {code : List AssemblyLine} (known : b ∈ Builtin.all)
    (stands : s.scope.lookup name = some (.builtin b))
    (lowers : ∀ a ∈ arguments, LowersTo s a.value)
    (made : Made (s.callBuiltin b arguments position) p code q) :
    StraightCode s.scope s.procedure (⟨name, arguments.map (·.value.formula)⟩ ::
      formulasSites (arguments.map (·.value.formula))) code := by
  unfold callBuiltin at made
  split at made
  · exact absurd made not_made_throw
  · simp only [made_bind, made_pure] at made
    obtain ⟨bound, _, bind, done, _, computed, loads, _, loaded, rfl, _⟩ := made
    obtain ⟨only, _, all⟩ := made_bindArguments bind
    generalize sites_eq : Site.mk name (arguments.map (·.value.formula)) ::
      formulasSites (arguments.map (·.value.formula)) = sites
    have covered : ∀ a ∈ arguments, formulaSites a.value.formula ⊆ sites := fun a there site inside =>
      sites_eq ▸ List.mem_cons_of_mem _
        (mem_formulasSites.2 ⟨_, List.mem_map.2 ⟨a, there, rfl⟩, inside⟩)
    have given : ∀ n l, bound.get? n = some l → ∃ a ∈ arguments, a.value = l := fun n l found =>
      (only n l found).resolve_left (by simp [Table.get?, Table.empty])
    have lowers' : ∀ n l, bound.get? n = some l → LowersTo s l := by
      intro n l found
      obtain ⟨a, there, rfl⟩ := given n l found
      exact lowers a there
    have covers : ∀ n l, bound.get? n = some l → formulaSites l.formula ⊆ sites := by
      intro n l found
      obtain ⟨a, there, rfl⟩ := given n l found
      exact covered a there
    obtain ⟨_, straight, calls, values⟩ := made_operands lowers' covers computed
    obtain ⟨onLoads, accumulator⟩ := made_loadAccumulator known lowers' covers loaded
    refine ⟨fun line there => ?_, fun site there procedure => ?_⟩
    · rcases List.mem_append.1 there with there | there
      · rcases List.mem_append.1 there with there | there
        · exact (straight line there).resolve_left List.not_mem_nil
        · exact onLoads line there
      · refine straight_expand known (fun n c found => ?_) line there
        exact (values n c found).resolve_left (by simp [Table.get?, Table.empty])
    · rw [← sites_eq] at there
      rcases List.mem_cons.1 there with rfl | nested
      · obtain ⟨symbol, found, other⟩ := procedure
        exact absurd (Option.some.inj (found.symm.trans stands)) (other b)
      · obtain ⟨f, inArguments, inside⟩ := mem_formulasSites.1 nested
        obtain ⟨a, there, rfl⟩ := List.mem_map.1 inArguments
        obtain ⟨param, inParams, found⟩ := all a there
        by_cases kind : param.kind = .accumulator
        · refine ((accumulator param inParams kind _ found).calls site inside procedure).within ?_
          exact ⟨done.code, expand b done.values, rfl⟩
        · refine (calls param inParams kind _ found site inside procedure).within ?_
          exact ⟨[], loads ++ expand b done.values, by simp⟩

end Commands

/-! ## Calls of procedures -/

theorem exists_left_of_forall₂ {α β : Type} {R : α → β → Prop} {xs : List α} {ys : List β}
    (all : List.Forall₂ R xs ys) {y : β} (there : y ∈ ys) : ∃ x ∈ xs, R x y := by
  induction all with
  | nil => cases there
  | @cons x _ _ _ related _ ih =>
      rcases List.mem_cons.1 there with rfl | there
      · exact ⟨x, List.mem_cons_self .., related⟩
      · obtain ⟨x, inRest, related⟩ := ih there
        exact ⟨x, List.mem_cons_of_mem _ inRest, related⟩

theorem exists_right_of_forall₂ {α β : Type} {R : α → β → Prop} {xs : List α} {ys : List β}
    (all : List.Forall₂ R xs ys) {x : α} (there : x ∈ xs) : ∃ y ∈ ys, R x y :=
  exists_left_of_forall₂ all.flip there

section Calls

variable {s : Setting}

/-- The arguments of a procedure are loaded and stored one by one. -/
theorem made_passArguments {position : Position} : ∀ {cells : List String}
    {arguments : List LoweredArgument} {p q : Pool} {code : List AssemblyLine},
    (∀ a ∈ arguments, (∃ start, a.value = s.lower start a.value.formula) ∧ LowersTo s a.value) →
    arguments.length = cells.length → Made (passArguments position cells arguments) p code q →
      ∃ loads, code = passLines cells loads ∧
        List.Forall₂ (LoadOf s.scope s.procedure) (arguments.map (·.value.formula)) loads ∧
        List.Forall₂ (fun a load => StraightCode s.scope s.procedure (formulaSites a.value.formula) load)
          arguments loads
  | [], [], p, q, code, _, _, made => by
      obtain ⟨rfl, rfl⟩ := made_pure.1 made
      exact ⟨[], rfl, .nil, .nil⟩
  | cell :: cells, a :: rest, p, q, code, lowers, size, made => by
      rw [passArguments] at made
      split at made
      · exact absurd made not_made_throw
      · simp only [made_bind, made_pure] at made
        obtain ⟨load, middle, here, more, _, onward, rfl, _⟩ := made
        obtain ⟨⟨start, lowered⟩, lowersTo⟩ := lowers a (List.mem_cons_self ..)
        obtain ⟨loads, rfl, made, all⟩ := made_passArguments
          (fun other there => lowers other (List.mem_cons_of_mem _ there)) (Nat.succ.inj size) onward
        exact ⟨load :: loads, rfl, .cons ⟨s, start, p, middle, rfl, rfl, lowered ▸ here⟩ made,
          .cons (lowersTo.load _ _ _ here) all⟩

theorem straight_passLines {stores calls : String → Prop} : ∀ {cells : List String}
    {loads : List (List AssemblyLine)}, (∀ cell ∈ cells, stores cell) →
    (∀ load ∈ loads, ∀ line ∈ load, line.Straight stores calls) →
      ∀ line ∈ passLines cells loads, line.Straight stores calls
  | [], _, _, _, line, there => absurd there List.not_mem_nil
  | _ :: _, [], _, _, line, there => absurd there List.not_mem_nil
  | cell :: cells, load :: loads, onCells, onLoads, line, there => by
      rw [passLines] at there
      rcases List.mem_append.1 there with inLoad | there
      · exact onLoads load (List.mem_cons_self ..) line inLoad
      · rcases List.mem_cons.1 there with rfl | there
        · exact .store (onCells cell (List.mem_cons_self ..))
        · exact straight_passLines (fun c there => onCells c (List.mem_cons_of_mem _ there))
            (fun l there => onLoads l (List.mem_cons_of_mem _ there)) line there

theorem isInfix_passLines : ∀ {cells : List String} {loads : List (List AssemblyLine)}
    {load : List AssemblyLine}, loads.length = cells.length → load ∈ loads →
      load <:+: passLines cells loads
  | _ :: _, _ :: _, load, size, there => by
      rw [passLines]
      rcases List.mem_cons.1 there with rfl | there
      · exact (List.prefix_append _ _).isInfix
      · exact (isInfix_passLines (Nat.succ.inj size) there).trans
          ((List.suffix_cons _ _).trans (List.suffix_append _ _)).isInfix
  | [], [], _, _, there => absurd there List.not_mem_nil

/-- The code of a call has the call itself and those in its arguments. -/
theorem loads_call (predefines : Predefines s.scope) {name : String}
    {arguments : List LoweredArgument} {position : Position} {asValue : Bool} {p q : Pool}
    {code : List AssemblyLine}
    (lowers : ∀ a ∈ arguments,
      (∃ start, a.value = s.lower start a.value.formula) ∧ LowersTo s a.value)
    (made : Made (s.call name arguments position asValue) p code q) :
    StraightCode s.scope s.procedure (⟨name, arguments.map (·.value.formula)⟩ ::
      formulasSites (arguments.map (·.value.formula))) code := by
  unfold call at made
  split at made
  · rename_i b stands
    split at made
    · exact absurd made not_made_throw
    · exact absurd made not_made_throw
    · exact loads_callBuiltin (predefines name b stands) stands
        (fun a there => (lowers a there).2) made
  · rename_i cells stands
    split at made
    · exact absurd made not_made_throw
    · rename_i size
      simp only [made_bind, made_pure] at made
      obtain ⟨passed, _, passing, rfl, _⟩ := made
      have size : arguments.length = cells.length := Decidable.not_not.1 size
      obtain ⟨loads, rfl, loadOf, loaded⟩ := made_passArguments lowers size passing
      have count : loads.length = cells.length := loaded.length_eq.symm.trans size
      have covered : ∀ a ∈ arguments, formulaSites a.value.formula ⊆
          formulasSites (arguments.map (·.value.formula)) := fun a there site inside =>
        mem_formulasSites.2 ⟨_, List.mem_map.2 ⟨a, there, rfl⟩, inside⟩
      refine ⟨fun line there => ?_, fun site there procedure => ?_⟩
      · rcases List.mem_append.1 there with there | there
        · refine straight_passLines (fun cell inCells => ?_) (fun load inLoads line inLoad => ?_)
            line there
          · exact .inr (.inr ⟨_, List.mem_cons_self .., cells, stands, inCells⟩)
          · obtain ⟨a, there, loads⟩ := exists_left_of_forall₂ loaded inLoads
            exact (loads.straight line inLoad).mono
              (fun _ stores => stores.mono
                (List.Subset.trans (covered a there) (List.subset_cons_self ..)))
              (fun _ calls => calls.mono
                (List.Subset.trans (covered a there) (List.subset_cons_self ..)))
        · rw [List.mem_singleton.1 there]
          exact .call ⟨⟨_, List.mem_cons_self .., rfl⟩, cells, stands⟩
      · rcases List.mem_cons.1 there with rfl | nested
        · exact ⟨cells, loads, stands, by simp [size], loadOf, List.infix_rfl⟩
        · obtain ⟨f, inArguments, inside⟩ := mem_formulasSites.1 nested
          obtain ⟨a, there, rfl⟩ := List.mem_map.1 inArguments
          obtain ⟨load, inLoads, loads⟩ := exists_right_of_forall₂ loaded there
          exact (loads.calls site inside procedure).within
            ((isInfix_passLines count inLoads).trans (List.prefix_append _ _).isInfix)
  all_goals exact absurd made not_made_throw

theorem lower_formula (start : Nat) (f : Formula) : (s.lower start f).formula = f := by
  cases f <;> rw [lower] <;> first | rfl | simp

theorem lowerArguments_eq (start : Nat) (fs : List Formula) :
    s.lowerArguments start fs = fs.map fun f => ⟨none, s.lower start f⟩ := by
  induction fs with
  | nil => rw [lowerArguments, List.map_nil]
  | cons f rest ih => rw [lowerArguments, ih, List.map_cons]

mutual

/-- **What a formula is lowered to has all of its calls.** -/
theorem lowersTo_lower (predefines : Predefines s.scope) (start : Nat) :
    ∀ f : Formula, LowersTo s (s.lower start f)
  | .name offset name => by
      rw [lower]
      exact lowersTo_complete fun _ _ _ made => loads_loadName made
  | .unary offset op operand => by
      rw [lower]
      refine lowersTo_complete fun _ _ _ made => ?_
      have loads := loads_loadUnary (n := offset) (lowersTo_lower predefines start operand) made
      rwa [lower_formula] at loads
  | .binary offset op left right => by
      rw [lower]
      refine lowersTo_complete fun _ _ _ made => ?_
      have loads := loads_loadBinary (n := offset) (lowersTo_lower predefines start left)
        (lowersTo_lower predefines start right) made
      rwa [lower_formula, lower_formula] at loads
  | .call offset function args => by
      rw [lower]
      refine lowersTo_complete fun _ _ _ made => ?_
      rw [lowerArguments_eq] at made
      have loads := loads_call predefines (fun a there => ?_) made
      · rw [formulaSites]
        simpa [List.map_map, Function.comp_def, lower_formula] using loads
      · obtain ⟨f, inArgs, rfl⟩ := List.mem_map.1 there
        exact ⟨⟨start, by rw [lower_formula]⟩, lowersTo_arguments predefines start args f inArgs⟩
  | .int _ _ | .float _ _ | .quantity _ _ _ | .text _ _ | .list _ _ | .dict _ _ | .index _ _ _ => by
      rw [lower]
      all_goals first
        | exact lowersTo_complete fun _ _ _ made => absurd made not_made_throw
        | simp

theorem lowersTo_arguments (predefines : Predefines s.scope) (start : Nat) :
    ∀ fs : List Formula, ∀ f ∈ fs, LowersTo s (s.lower start f)
  | [], _, there => absurd there List.not_mem_nil
  | first :: rest, f, there => by
      rcases List.mem_cons.1 there with same | later
      · rw [same]
        exact lowersTo_lower predefines start first
      · exact lowersTo_arguments predefines start rest f later

end

/-- The code of a formula, and that which makes it an operand. -/
theorem loads_lower (predefines : Predefines s.scope) {start : Nat} {f : Formula} {p q : Pool}
    {code : List AssemblyLine} (made : Made (s.lower start f).load p code q) :
    StraightCode s.scope s.procedure (formulaSites f) code := by
  have loads := (lowersTo_lower predefines start f).load p code q made
  rwa [lower_formula] at loads

theorem loads_lower_operand (predefines : Predefines s.scope) {start : Nat} {f : Formula}
    {p q : Pool} {code : List AssemblyLine} {cell : String}
    (made : Made (s.lower start f).operand p (code, cell) q) :
    StraightCode s.scope s.procedure (formulaSites f) code := by
  have loads := (lowersTo_lower predefines start f).operand p code cell q made
  rwa [lower_formula] at loads

end Calls

end PulseSequencer.Ppp
