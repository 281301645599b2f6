import PulseSequencer.Proofs.Ppp.ProgramCode

/-
# PulseSequencer.Proofs.Ppp.Arguments -- arguments reach the procedure

A call stores its arguments one by one in cells of the procedure and then enters it.
Whatever runs in between, for the arguments behind, leaves a stored argument alone unless
it calls the same procedure, directly or through others (`argument_kept`).  A call of the
same procedure among those arguments stores in the same cells, and what was stored is lost
(`argument_lost`).
-/

namespace PulseSequencer.Ppp

open Setting

set_option autoImplicit false

/-! ## Calls on the way -/

/-- What calls lead to, directly or through procedures. -/
inductive Reached (items : List Item) (calls : List Site) : String → Prop
  | call {site : Site} (there : site ∈ calls) : Reached items calls site.name
  | through {q : Procedure} {site : Site} (reached : Reached items calls q.name)
      (procedure : .procedure q ∈ items) (there : site ∈ blockSites q.body) :
      Reached items calls site.name

/-- The cells of the parameters have names that no other cell has. -/
structure OwnCells (items : List Item) (p : Procedure) : Prop where
  distinct : (Declared.cells p).Nodup
  declarations : ∀ v, .declaration v ∈ items → v.name ∉ Declared.cells p
  procedures : ∀ q, .procedure q ∈ items → q.name ≠ p.name →
    ∀ cell ∈ Declared.cells q, cell ∉ Declared.cells p
  scratch : ∀ owner i, scratchName owner i ∉ Declared.cells p

/-- Where in the code of a call its argument `i` is stored. -/
def storeOffset (cells : List String) (loads : List (List AssemblyLine)) (i : Nat) : Nat :=
  (passLines (cells.take i) (loads.take i)).length + (loads.getD i []).length

/-- Where in the code of a call the procedure is entered. -/
def pushOffset (cells : List String) (loads : List (List AssemblyLine)) : Nat :=
  (passLines cells loads).length

theorem passLines_split : ∀ {cells : List String} {loads : List (List AssemblyLine)} {i : Nat}
    {cell : String} {load : List AssemblyLine}, cells[i]? = some cell → loads[i]? = some load →
      passLines cells loads = (passLines (cells.take i) (loads.take i) ++ load) ++
        .unary .stwr cell :: passLines (cells.drop (i + 1)) (loads.drop (i + 1))
  | c :: cells, l :: loads, 0, cell, load, hc, hl => by
      obtain rfl := Option.some.inj hc
      obtain rfl := Option.some.inj hl
      simp [passLines]
  | c :: cells, l :: loads, i + 1, cell, load, hc, hl => by
      have hc : cells[i]? = some cell := hc
      have rest := passLines_split hc (show loads[i]? = some load from hl)
      simp [passLines, rest]

section Kept

variable {items : List Item} {p : Procedure} {lines : List AssemblyLine} {calls : List Site}

/-- Code that calls no procedure of the name stores in other cells. -/
theorem Context.differs {owner : String} {context : Option Procedure} {scope : Scope}
    (inContext : Context items context scope) (own : OwnCells items p)
    (elsewhere : ∀ q, context = some q → .procedure q ∈ items ∧ q.name ≠ p.name)
    {sites : List Site} (others : ∀ site ∈ sites, site.name ≠ p.name) {c cell : String}
    (stores : Stores scope owner sites c) (parameter : cell ∈ Declared.cells p) : c ≠ cell := by
  rintro rfl
  rcases stores with is | ⟨i, rfl⟩ | ⟨site, there, cells, found, inside⟩
  · rcases inContext.cell c is with ⟨v, there, rfl⟩ | ⟨q, same, inside⟩
    · exact own.declarations v there parameter
    · obtain ⟨there, other⟩ := elsewhere q same
      exact own.procedures q there other c inside parameter
  · exact own.scratch owner i parameter
  · obtain ⟨q, there', named, rfl⟩ := inContext.procedure _ _ found
    exact own.procedures q there' (named ▸ others site there) c inside parameter

/-- Places in procedures that the calls lead to. -/
def InReached (items : List Item) (calls : List Site) (lines : List AssemblyLine) (i : Nat) :
    Prop :=
  ∃ q start code, .procedure q ∈ items ∧ Reached items calls q.name ∧ ProcedureCode items q code ∧
    Placed lines start code ∧ start ≤ i ∧ i < start + code.length

theorem enters_of_reached (code : CodeOf items lines) (distinct : (labelNames lines).Nodup)
    {scope : Scope} {context : Option Procedure} (inContext : Context items context scope)
    {name : String} {cells : List String} (found : scope.lookup name = some (.procedure cells))
    (reached : Reached items calls name) : Enters lines (InReached items calls lines) name := by
  intro j target
  obtain ⟨q, there, rfl, _⟩ := inContext.procedure _ _ found
  obtain ⟨start, own, made, placed⟩ := code.procedure q there
  exact ⟨q, start, own, there, reached, made, placed, placed.labels distinct made.label target⟩

/-- A procedure that the calls lead to is left by returns only, and stores in no cell of a
procedure that they do not lead to. -/
theorem flows_of_inReached (code : CodeOf items lines) (distinct : (labelNames lines).Nodup)
    (own : OwnCells items p) (alone : ¬Reached items calls p.name)
    (plain : ∀ q, .procedure q ∈ items → Reached items calls q.name → blockAssembly q.body = false)
    {cell : String} (parameter : cell ∈ Declared.cells p) {i : Nat}
    (inside : InReached items calls lines i) :
    ∃ line, lines[i]? = some line ∧
      line.Flows (· ≠ cell) (Enters lines (InReached items calls lines))
        (Enters lines (InReached items calls lines)) False ∧
      (line ≠ .instruction .jmppop [] → InReached items calls lines (i + 1)) := by
  obtain ⟨q, start, own', there, reached, made, placed, low, high⟩ := inside
  obtain ⟨k, rfl⟩ := Nat.exists_eq_add_of_le low
  have below : k < own'.length := by omega
  have found : lines[start + k]? = some own'[k] := by
    rw [placed.getElem?_add k below, List.getElem?_eq_getElem below]
  obtain ⟨scope, inContext, codes⟩ := made.codes
  have onward : ∀ site ∈ blockSites q.body, Reached items calls site.name :=
    fun site inBody => .through reached there inBody
  refine ⟨_, found, (codes.flows _ (List.getElem_mem below)).mono
    (fun c stores => inContext.differs own (fun q' same => ?_)
      (fun site inBody same => alone (same ▸ onward site inBody)) stores parameter)
    (fun name called => ?_) (fun l jumps j target => ?_) (fun loose => ?_), fun other => ?_⟩
  · obtain rfl := Option.some.inj same
    exact ⟨there, fun same => alone (same ▸ reached)⟩
  · obtain ⟨⟨site, inBody, rfl⟩, cells, found⟩ := called
    exact enters_of_reached code distinct inContext found (onward site inBody)
  · have here := placed.labels distinct (jumps.resolve_left List.not_mem_nil) target
    exact ⟨q, start, own', there, reached, made, placed, here⟩
  · rw [plain q there reached] at loose
    cases loose
  · refine ⟨q, start, own', there, reached, made, placed, by omega, ?_⟩
    by_contra past
    have ends : k = own'.length - 1 := by omega
    have last := made.last
    rw [List.getLast?_eq_getElem?, ← ends, List.getElem?_eq_getElem below] at last
    exact other (Option.some.inj last)

/-- The code of the arguments behind one that is stored. -/
theorem straight_later (code : CodeOf items lines) (distinct : (labelNames lines).Nodup)
    {owner : String} {context : Option Procedure} {scope : Scope}
    (inContext : Context items context scope) (own : OwnCells items p)
    (elsewhere : ∀ q, context = some q → .procedure q ∈ items ∧ q.name ≠ p.name)
    {arguments : List Formula} {loads : List (List AssemblyLine)} {i : Nat} {cell : String}
    (here : (Declared.cells p)[i]? = some cell)
    (made : List.Forall₂ (LoadOf scope owner) arguments loads)
    (alone : ¬Reached items (formulasSites arguments) p.name) :
    ∀ line ∈ passLines ((Declared.cells p).drop (i + 1)) loads,
      line.Straight (· ≠ cell)
        (Enters lines (InReached items (formulasSites arguments) lines)) := by
  refine straight_passLines (fun c later => ?_) (fun load inLoads line inLoad => ?_)
  · rintro rfl
    obtain ⟨below, got⟩ := List.getElem?_eq_some_iff.1 here
    have cut : (Declared.cells p).take (i + 1) ++ (Declared.cells p).drop (i + 1) =
        Declared.cells p := List.take_append_drop ..
    have apart := (List.nodup_append.1 (cut.symm ▸ own.distinct)).2.2
    exact apart c (List.mem_take_iff_getElem.2 ⟨i, by omega, got⟩) c later rfl
  · obtain ⟨f, inArguments, s, start, a, b, rfl, rfl, lowered⟩ := exists_left_of_forall₂ made inLoads
    have within : ∀ site ∈ formulaSites f, site ∈ formulasSites arguments := fun site inside =>
      mem_formulasSites.2 ⟨f, inArguments, inside⟩
    refine ((loads_lower inContext.predefines lowered).straight line inLoad).mono
      (fun c stores => inContext.differs own elsewhere (fun site inside same => alone ?_) stores
        (List.mem_of_getElem? here)) (fun name called => ?_)
    · exact same ▸ .call (within site inside)
    · obtain ⟨⟨site, inside, rfl⟩, cells, found⟩ := called
      exact enters_of_reached code distinct inContext found (.call (within site inside))

end Kept

/-- **A stored argument is there when its procedure is entered**, if no argument behind it
calls the procedure, directly or through others.  A call stores its arguments in turn, at
`storeOffset`, with the value of the argument in W, and enters the procedure at
`pushOffset`; on every run from there to the next entry, of this call, the cell keeps the
value. -/
theorem argument_kept {source : String} {items : List Item} {assembly : Assembly}
    (parsed : parse source = .ok items) (compiled : compile source = .ok assembly)
    (distinct : (labelNames (assembly.lines.map PlacedLine.line)).Nodup)
    (acyclic : ∀ q, .procedure q ∈ items → ¬Reached items (blockSites q.body) q.name)
    {p : Procedure} (procedure : .procedure p ∈ items) (own : OwnCells items p) {site : Site}
    (there : site ∈ programSites items) (named : site.name = p.name) :
    let lines := assembly.lines.map PlacedLine.line
    let cells := Declared.cells p
    ∃ owner scope loads start, cells.length = site.arguments.length ∧
      List.Forall₂ (LoadOf scope owner) site.arguments loads ∧
      Placed lines start (callLines p.name cells loads) ∧
      ∀ i cell, cells[i]? = some cell →
        let later := formulasSites (site.arguments.drop (i + 1))
        ¬Reached items later p.name →
        (∀ q, .procedure q ∈ items → Reached items later q.name → blockAssembly q.body = false) →
        ∀ (alu : Machine.Alu) (a b : Running), a.place = start + storeOffset cells loads i →
          b.place = start + pushOffset cells loads →
          Relation.ReflTransGen
            (StepBefore alu lines (start + pushOffset cells loads) a.returns) a b →
          b.state.memory cell = a.state.w := by
  intro lines cells
  have code := codeOf_of_compile parsed compiled
  obtain ⟨owner, context, scope, loads, start, inContext, within, size, made, placed⟩ :=
    code.site site there p procedure named
  -- the call does not stand in the body of its own procedure
  have elsewhere : ∀ q, context = some q → .procedure q ∈ items ∧ q.name ≠ p.name := by
    intro q same
    obtain ⟨there', inBody⟩ := within q same
    exact ⟨there', fun same' => acyclic q there' (same' ▸ named ▸ .call inBody)⟩
  refine ⟨owner, scope, loads, start, size, made, placed, ?_⟩
  intro i cell here later alone plain alu a b atStore atPush ran
  obtain ⟨load, loaded⟩ : ∃ load, loads[i]? = some load := by
    have count : loads.length = cells.length := made.length_eq.symm.trans size.symm
    have below : i < loads.length := count ▸ (List.getElem?_eq_some_iff.1 here).1
    exact ⟨loads[i], List.getElem?_eq_getElem below⟩
  -- the code of the call, cut behind the instruction that stores the argument
  have cut := passLines_split here loaded
  have front : (passLines (cells.take i) (loads.take i) ++ load).length =
      storeOffset cells loads i := by
    rw [storeOffset, List.length_append, List.getD_eq_getElem?_getD, loaded, Option.getD_some]
  have total : pushOffset cells loads = storeOffset cells loads i + 1 +
      (passLines (cells.drop (i + 1)) (loads.drop (i + 1))).length := by
    rw [pushOffset, cut, List.length_append, front, List.length_cons]
    omega
  rw [callLines, cut, List.append_assoc, List.cons_append] at placed
  have behind := placed.right
  rw [front] at behind
  obtain ⟨c, ⟨_, first⟩, rest⟩ : ∃ c, StepBefore alu lines (start + pushOffset cells loads)
      a.returns a c ∧ Relation.ReflTransGen
        (StepBefore alu lines (start + pushOffset cells loads) a.returns) c b := by
    rcases Relation.ReflTransGen.cases_head ran with rfl | onward
    · omega
    · exact onward
  obtain ⟨place, returns, stored⟩ := step_store (atStore ▸ behind.getElem?) first
  have confined : Confined lines
      (fun k => start + storeOffset cells loads i < k ∧ k ≤ start + pushOffset cells loads)
      (InReached items later lines) (start + pushOffset cells loads) cell := by
    refine ⟨fun k ⟨low, high⟩ before => ⟨by omega, ?_⟩,
      fun k inside => flows_of_inReached code distinct own alone plain
        (List.mem_of_getElem? here) inside⟩
    obtain ⟨j, rfl⟩ := Nat.exists_eq_add_of_lt low
    have below : j < (passLines (cells.drop (i + 1)) (loads.drop (i + 1))).length := by omega
    have found := behind.tail.left.getElem?_add j below
    rw [List.getElem?_eq_getElem below] at found
    refine ⟨_, by rw [← found]; congr 1; omega, ?_⟩
    exact straight_later code distinct inContext own elsewhere here (List.forall₂_drop _ made) alone _
      (List.getElem_mem below)
  rw [← stored]
  exact kept_of_confined confined
    (by rw [returns, place, atStore]; exact .outer (by omega)) rest

/-- Procedures that call nothing lead nowhere. -/
theorem reached_of_silent {items : List Item} {calls : List Site} {name : String}
    (silent : ∀ q, .procedure q ∈ items → blockSites q.body = [])
    (reached : Reached items calls name) : ∃ site ∈ calls, site.name = name := by
  cases reached with
  | call there => exact ⟨_, there, rfl⟩
  | through _ procedure there =>
      rw [silent _ procedure] at there
      cases there

theorem head?_scratchName (owner : String) (i : Nat) :
    (scratchName owner i).toList.head? = some '_' := by
  unfold scratchName
  split <;> simp [String.toList_append]

/-- A call of another procedure behind the first argument. -/
def addTwice : String :=
  "var r\ndef twice(x):\n  return x + x\ndef add(x, y):\n  return x + y\nr = add(1, twice(2))\n"

/-- Whether items are a cell, two procedures without calls or assembly text, and a
statement that calls the second procedure and the first one in its second argument. -/
def isAddTwice : List Item → Bool
  | [.declaration d, .procedure t, .procedure p, .statement s] =>
      decide (d.name = "r" ∧ t.name = "twice" ∧ t.parameters = ["x"] ∧ p.name = "add" ∧
        p.parameters = ["x", "y"] ∧ (blockSites t.body).length = 0 ∧
        (blockSites p.body).length = 0 ∧ blockAssembly t.body = false ∧
        blockAssembly p.body = false ∧
        ((statementSites s).map fun site =>
          (site.name, (formulasSites (site.arguments.drop 1)).map Site.name)) =
            [("add", ["twice"]), ("twice", [])])
  | _ => false

theorem argument_kept_addTwice :
    ∃ (items : List Item) (assembly : Assembly) (p : Procedure) (site : Site),
      parse addTwice = .ok items ∧ compile addTwice = .ok assembly ∧
      (labelNames (assembly.lines.map PlacedLine.line)).Nodup ∧
      (∀ q, .procedure q ∈ items → ¬Reached items (blockSites q.body) q.name) ∧
      .procedure p ∈ items ∧ OwnCells items p ∧ site ∈ programSites items ∧ site.name = p.name ∧
      let lines := assembly.lines.map PlacedLine.line
      let later := formulasSites (site.arguments.drop 1)
      ¬Reached items later p.name ∧
      (∀ q, .procedure q ∈ items → Reached items later q.name → blockAssembly q.body = false) ∧
      ∃ loads start, Placed lines start (callLines p.name (Declared.cells p) loads) ∧
        ∀ (alu : Machine.Alu) (a b : Running),
          a.place = start + storeOffset (Declared.cells p) loads 0 →
          b.place = start + pushOffset (Declared.cells p) loads →
          Relation.ReflTransGen (StepBefore alu lines
            (start + pushOffset (Declared.cells p) loads) a.returns) a b →
          b.state.memory "add__x" = a.state.w := by
  have shape : (parse addTwice).toOption.map isAddTwice = some true := by
    decide +kernel
  have labels : ((compile addTwice).toOption.map fun assembly =>
      decide (labelNames (assembly.lines.map PlacedLine.line)).Nodup) = some true := by
    decide +kernel
  obtain ⟨items, parsed, shape⟩ := Option.map_eq_some_iff.1 shape
  obtain ⟨assembly, compiled, distinct⟩ := Option.map_eq_some_iff.1 labels
  have parsed := ok_of_toOption parsed
  have compiled := ok_of_toOption compiled
  have distinct := of_decide_eq_true distinct
  unfold isAddTwice at shape
  split at shape
  · rename_i d t p s _
    obtain ⟨dName, tName, tParameters, pName, pParameters, tCalls, pCalls, tText, pText, sites⟩ :=
      of_decide_eq_true shape
    generalize all : [Item.declaration d, .procedure t, .procedure p, .statement s] = items at parsed
    have procedures : ∀ q, .procedure q ∈ items → q = t ∨ q = p := by
      rw [← all]
      simp
    have silent : ∀ q, .procedure q ∈ items →
        blockSites q.body = [] := by
      intro q there
      rcases procedures q there with rfl | rfl
      · exact List.length_eq_zero_iff.1 tCalls
      · exact List.length_eq_zero_iff.1 pCalls
    have text : ∀ q, .procedure q ∈ items →
        blockAssembly q.body = false := by
      intro q there
      rcases procedures q there with rfl | rfl
      · exact tText
      · exact pText
    have acyclic : ∀ q, .procedure q ∈ items →
        ¬Reached items (blockSites q.body)
          q.name := by
      intro q there reached
      obtain ⟨site, inBody, _⟩ := reached_of_silent silent reached
      rw [silent q there] at inBody
      cases inBody
    have cells : Declared.cells p = ["add__x", "add__y"] := by
      rw [Declared.cells, pParameters, pName]
      rfl
    have own : OwnCells items p := by
      refine ⟨by rw [cells]; decide, fun v there => ?_, fun q there other c inCells => ?_,
        fun owner i there => ?_⟩
      · rw [← all] at there
        obtain rfl : v = d := by simpa using there
        rw [cells, dName]
        decide
      · rcases procedures q there with rfl | rfl
        · rw [Declared.cells, tParameters, tName] at inCells
          rw [List.mem_singleton.1 inCells, cells]
          decide
        · exact absurd rfl other
      · have head := head?_scratchName owner i
        rw [cells] at there
        rcases List.mem_cons.1 there with same | there
        · rw [same] at head
          exact absurd head (by decide)
        · rw [List.mem_singleton.1 there] at head
          exact absurd head (by decide)
    obtain ⟨site, others, calls, first, _⟩ := List.map_eq_cons_iff.1 sites
    obtain ⟨named, behind⟩ := Prod.mk.inj first
    have procedure : .procedure p ∈ items := by
      rw [← all]
      simp
    have inProgram : site ∈ programSites items := by
      rw [← all]
      refine List.mem_append_left _ (?_ : site ∈ blockSites [s])
      rw [blockSites, calls]
      exact List.mem_append_left _ (List.mem_cons_self ..)
    have alone : ¬Reached items
        (formulasSites (site.arguments.drop 1)) p.name := by
      intro reached
      obtain ⟨other, there, same⟩ := reached_of_silent silent reached
      have inNames := List.mem_map_of_mem (f := Site.name) there
      rw [behind, same, pName] at inNames
      exact absurd inNames (by decide)
    obtain ⟨owner, scope, loads, start, _, _, placed, kept⟩ :=
      argument_kept parsed compiled distinct acyclic procedure own inProgram (named.trans pName.symm)
    exact ⟨_, assembly, p, site, parsed, compiled, distinct, acyclic, procedure, own, inProgram,
      named.trans pName.symm, alone, fun q there _ => text q there, loads, start, placed,
      kept 0 "add__x" (by rw [cells]; rfl) alone fun q there _ => text q there⟩
  · cases shape

/-- A call of a procedure among its own arguments. -/
def addAdd : String := "var r\ndef add(x, y):\n  return x + y\nr = add(1, add(2, 3))\n"

/-- The code of the source above. -/
def addAddLines : List AssemblyLine :=
  [.cell "r" ["0", "", "", ""], .cell "add__x" ["0"], .cell "add__y" ["0"],
   .cell "__literal_0" ["1", "", ""], .cell "__literal_1" ["2", "", ""],
   .cell "__literal_2" ["3", "", ""],
   .unary .ldwr "__literal_0", .unary .stwr "add__x",
   .unary .ldwr "__literal_1", .unary .stwr "add__x",
   .unary .ldwr "__literal_2", .unary .stwr "add__y", .unary .jmppush "add",
   .unary .stwr "add__y", .unary .jmppush "add", .unary .stwr "r", .instruction .finish [],
   .label "add", .unary .ldwr "add__x", .unary .addw "add__y", .instruction .jmppop []]

/-- **An argument is lost where one behind it calls the same procedure**: the outer call
stores 1, and enters the procedure with 2. -/
theorem argument_lost :
    ∃ (items : List Item) (assembly : Assembly) (a b : Running),
      parse addAdd = .ok items ∧ compile addAdd = .ok assembly ∧
      (∀ q, .procedure q ∈ items → ¬Reached items (blockSites q.body) q.name) ∧
      let lines := assembly.lines.map PlacedLine.line
      let begun : Running := ⟨0, [], ⟨fun cell => if cell = "__literal_0" then 1 else
        if cell = "__literal_1" then 2 else if cell = "__literal_2" then 3 else 0, 0, false⟩⟩
      Relation.ReflTransGen (StepBefore Machine.unsignedAlu lines 14 []) begun a ∧
      Relation.ReflTransGen (StepBefore Machine.unsignedAlu lines 14 []) a b ∧
      lines[a.place]? = some (.unary .stwr "add__x") ∧ a.state.w = 1 ∧
      b.place = 14 ∧ b.returns = a.returns ∧ lines[b.place]? = some (.unary .jmppush "add") ∧
      b.state.memory "add__x" = 2 := by
  have shape : ((parse addAdd).toOption.map fun items =>
      (items.filterMap Item.procedure?).all fun q => (blockSites q.body).length == 0) =
        some true := by
    decide +kernel
  have code : ((compile addAdd).toOption.map fun assembly =>
      assembly.lines.map PlacedLine.line) = some addAddLines := by
    decide +kernel
  obtain ⟨items, parsed, shape⟩ := Option.map_eq_some_iff.1 shape
  obtain ⟨assembly, compiled, code⟩ := Option.map_eq_some_iff.1 code
  have silent : ∀ q, .procedure q ∈ items → blockSites q.body = [] := fun q there =>
    List.length_eq_zero_iff.1 (eq_of_beq (List.all_eq_true.1 shape _ (mem_procedures.2 there)))
  generalize begun_eq : (⟨0, [], ⟨fun cell => if cell = "__literal_0" then 1 else
    if cell = "__literal_1" then 2 else if cell = "__literal_2" then 3 else 0, 0, false⟩⟩ :
      Running) = begun
  have first : ((runBefore Machine.unsignedAlu addAddLines 14 [] 7 begun).map fun a =>
      (a.place, a.returns, a.state.w)) = some (7, [], 1) := by
    rw [← begun_eq]
    decide
  have second : ((runBefore Machine.unsignedAlu addAddLines 14 [] 7 begun).bind fun a =>
      (runBefore Machine.unsignedAlu addAddLines 14 [] 11 a).map fun b =>
        (b.place, b.returns, b.state.memory "add__x")) = some (14, [], 2) := by
    rw [← begun_eq]
    decide
  obtain ⟨a, toStore, atStore⟩ := Option.map_eq_some_iff.1 first
  rw [toStore, Option.bind_some] at second
  obtain ⟨b, toPush, atPush⟩ := Option.map_eq_some_iff.1 second
  simp only [Prod.mk.injEq] at atStore atPush
  obtain ⟨placeA, returnsA, w⟩ := atStore
  obtain ⟨placeB, returnsB, lost⟩ := atPush
  refine ⟨items, assembly, a, b, ok_of_toOption parsed, ok_of_toOption compiled,
    fun q there reached => ?_, ?_⟩
  · obtain ⟨site, inBody, _⟩ := reached_of_silent silent reached
    rw [silent q there] at inBody
    cases inBody
  · rw [code, placeA, placeB, returnsA, returnsB]
    exact ⟨steps_of_runBefore toStore, steps_of_runBefore toPush, rfl, w, rfl, rfl, rfl, lost⟩

end PulseSequencer.Ppp
