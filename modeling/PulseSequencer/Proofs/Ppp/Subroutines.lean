import PulseSequencer.Proofs.Ppp.LineMachine
import Mathlib.Logic.Relation

/-
# PulseSequencer.Proofs.Ppp.Subroutines -- runs of lines with calls

JMPPUSH puts the place behind it on a stack and JMPPOP returns to it.  What the devices
leave in W and in the flag is open, and so is all that assembly text of a source does.

A run that has begun a straight piece of code and enters only confined places on its
calls comes back to the piece, or never ends it; a cell that no line on the way writes
keeps its word (`kept_of_confined`).
-/

namespace PulseSequencer

set_option autoImplicit false

namespace Opcode

/-- Instructions that a device answers, in W and the flag at most. -/
def isDevice : Opcode → Bool
  | .ddsfrq | .ddsamp | .ddsphs | .shuttermask | .asyncinvshutter | .countermask | .trigger
  | .update | .waitfortrigger | .setsynctime | .waitforsync | .dacout | .serialwrite | .ldcount
  | .rand | .randseed | .writepipe | .readpipe | .writeresulttopipe | .setramaddr | .ramread => true
  | _ => false

/-- Jumps that ask a device. -/
def isDeviceJump : Opcode → Bool
  | .jmppipeavail | .jmppipeempty => true
  | _ => false

def isJump : Opcode → Bool
  | .jmp | .jmpz | .jmpnz | .jmpcmp | .jmpncmp | .jmppipeavail | .jmppipeempty => true
  | _ => false

/-- Instructions that go on to the next one and write no cell, or end the run. -/
def isQuiet : Opcode → Bool
  | .ldwr | .clrw | .addw | .subw | .multw | .divw | .andw | .orw | .shl | .shr | .cmpequal
  | .cmpnotequal | .cmpless | .cmpgreater | .cmpge | .cmple | .finish => true
  | op => op.isDevice

end Opcode

namespace Ppp

open Machine

/-! ## Steps -/

/-- A place, the places to return to, innermost first, and the state. -/
structure Running where
  place : Nat
  returns : List Nat
  state : State String

variable {alu : Alu} {lines : List AssemblyLine}

/-- The place of a label. -/
def labelPlace? (lines : List AssemblyLine) (label : String) : Option Nat :=
  lines.findIdx? (· = .label label)

/-- What can happen at a place. -/
inductive Step (alu : Alu) (lines : List AssemblyLine) : Running → Running → Prop
  | line {i j : Nat} {returns : List Nat} {s t : State String}
      (stepped : lineStep alu lines (i, s) = some (j, t)) :
      Step alu lines ⟨i, returns, s⟩ ⟨j, returns, t⟩
  | call {i j : Nat} {returns : List Nat} {s : State String} {name : String}
      (found : lines[i]? = some (.unary .jmppush name)) (target : labelPlace? lines name = some j) :
      Step alu lines ⟨i, returns, s⟩ ⟨j, (i + 1) :: returns, s⟩
  | back {i place : Nat} {returns : List Nat} {s : State String}
      (found : lines[i]? = some (.instruction .jmppop [])) :
      Step alu lines ⟨i, place :: returns, s⟩ ⟨place, returns, s⟩
  | device {i : Nat} {returns : List Nat} {s : State String} {op : Opcode} {operands : List String}
      (found : lines[i]? = some (.instruction op operands)) (device : op.isDevice = true)
      (w : Word) (flag : Bool) :
      Step alu lines ⟨i, returns, s⟩ ⟨i + 1, returns, { s with w, flag }⟩
  | devicePass {i : Nat} {returns : List Nat} {s : State String} {op : Opcode} {label : String}
      (found : lines[i]? = some (.unary op label)) (device : op.isDeviceJump = true) :
      Step alu lines ⟨i, returns, s⟩ ⟨i + 1, returns, s⟩
  | deviceJump {i j : Nat} {returns : List Nat} {s : State String} {op : Opcode} {label : String}
      (found : lines[i]? = some (.unary op label)) (device : op.isDeviceJump = true)
      (target : labelPlace? lines label = some j) :
      Step alu lines ⟨i, returns, s⟩ ⟨j, returns, s⟩
  | verbatim {i : Nat} {returns : List Nat} {s : State String} {text : String} {b : Running}
      (found : lines[i]? = some (.verbatim text)) : Step alu lines ⟨i, returns, s⟩ b

/-- Where `verbatim` does not hold, a line that stores only in `stores`, calls only
`calls` and jumps only to `jumps`. -/
inductive AssemblyLine.Flows (stores calls jumps : String → Prop) (verbatim : Prop) :
    AssemblyLine → Prop
  | store {cell : String} (written : stores cell) : Flows _ _ _ _ (.unary .stwr cell)
  | call {name : String} (called : calls name) : Flows _ _ _ _ (.unary .jmppush name)
  | quiet {op : Opcode} {operands : List String} (quiet : op.isQuiet = true) :
      Flows _ _ _ _ (.instruction op operands)
  | jump {op : Opcode} {label : String} (jump : op.isJump = true) (target : jumps label) :
      Flows _ _ _ _ (.unary op label)
  | label {name : String} : Flows _ _ _ _ (.label name)
  | back : Flows _ _ _ _ (.instruction .jmppop [])
  | verbatim {text : String} (loose : verbatim) : Flows _ _ _ _ (.verbatim text)

/-- A line that stores only in `stores`, calls only `calls`, and goes on to the next one. -/
inductive AssemblyLine.Straight (stores calls : String → Prop) : AssemblyLine → Prop
  | store {cell : String} (written : stores cell) : Straight _ _ (.unary .stwr cell)
  | call {name : String} (called : calls name) : Straight _ _ (.unary .jmppush name)
  | quiet {op : Opcode} {operands : List String} (quiet : op.isQuiet = true) :
      Straight _ _ (.instruction op operands)

section Lines

variable {stores calls jumps stores' calls' jumps' : String → Prop} {verbatim verbatim' : Prop}
  {line : AssemblyLine}

theorem AssemblyLine.Straight.mono (straight : line.Straight stores calls)
    (onStores : ∀ c, stores c → stores' c) (onCalls : ∀ c, calls c → calls' c) :
    line.Straight stores' calls' := by
  cases straight with
  | store written => exact .store (onStores _ written)
  | call called => exact .call (onCalls _ called)
  | quiet quiet => exact .quiet quiet

theorem AssemblyLine.Straight.flows (straight : line.Straight stores calls) :
    line.Flows stores calls jumps verbatim := by
  cases straight with
  | store written => exact .store written
  | call called => exact .call called
  | quiet quiet => exact .quiet quiet

theorem AssemblyLine.Flows.mono (flows : line.Flows stores calls jumps verbatim)
    (onStores : ∀ c, stores c → stores' c) (onCalls : ∀ c, calls c → calls' c)
    (onJumps : ∀ l, jumps l → jumps' l) (onVerbatim : verbatim → verbatim') :
    line.Flows stores' calls' jumps' verbatim' := by
  cases flows with
  | store written => exact .store (onStores _ written)
  | call called => exact .call (onCalls _ called)
  | quiet quiet => exact .quiet quiet
  | jump jump target => exact .jump jump (onJumps _ target)
  | label => exact .label
  | back => exact .back
  | verbatim loose => exact .verbatim (onVerbatim loose)

end Lines

/-! ## What a step does -/

/-- Memory that differs in cells of `stores` at most. -/
def Writes (stores : String → Prop) (s t : State String) : Prop :=
  ∀ cell, ¬stores cell → t.memory cell = s.memory cell

/-- Where a step from a line that flows can lead. -/
inductive Leads (lines : List AssemblyLine) (calls jumps : String → Prop) (i : Nat)
    (returns : List Nat) : Nat → List Nat → Prop
  | next (onward : lines[i]? ≠ some (.instruction .jmppop [])) :
      Leads lines calls jumps i returns (i + 1) returns
  | call {name : String} {j : Nat} (onward : lines[i]? ≠ some (.instruction .jmppop []))
      (called : calls name) (target : labelPlace? lines name = some j) :
      Leads lines calls jumps i returns j ((i + 1) :: returns)
  | jump {label : String} {j : Nat} (allowed : jumps label)
      (target : labelPlace? lines label = some j) : Leads lines calls jumps i returns j returns
  | back {place : Nat} {rest : List Nat} (found : lines[i]? = some (.instruction .jmppop []))
      (returning : returns = place :: rest) : Leads lines calls jumps i returns place rest

section Lead

variable {stores calls jumps : String → Prop} {i j : Nat} {s t : State String}
  {line : AssemblyLine} {a b : Running}

/-- Only STWR writes, and only jumps do not go on to the next line. -/
theorem leads_of_lineStep (found : lines[i]? = some line)
    (flows : line.Flows stores calls jumps False)
    (stepped : lineStep alu lines (i, s) = some (j, t)) (returns : List Nat) :
    Leads lines calls jumps i returns j returns ∧ Writes stores s t := by
  have next : line ≠ .instruction .jmppop [] → Leads lines calls jumps i returns (i + 1) returns :=
    fun other => .next fun same => other (Option.some.inj (found.symm.trans same))
  simp only [lineStep, found] at stepped
  cases flows with
  | store written =>
      simp only [AssemblyLine.unary, Opcode.operandKind] at stepped
      split at stepped
      · obtain ⟨rfl, rfl⟩ := Prod.mk.inj (Option.some.inj stepped)
        refine ⟨next (by simp [AssemblyLine.unary]), fun other free => State.store_other _ ?_⟩
        rintro rfl
        exact free written
      · cases stepped
  | call called => simp [AssemblyLine.unary, Opcode.operandKind, Alu.perform, Alu.effect] at stepped
  | @quiet op operands quiet =>
      have keeps : ∀ {x : String} {u : State String} {jumps : Bool},
          alu.perform op x s = some (u, jumps) → u.memory = s.memory ∧ jumps = false := by
        intro x u jumps performed
        refine ⟨?_, alu.perform_not_jumps (by cases op <;> first | decide | cases quiet) performed⟩
        unfold Alu.perform at performed
        split at performed
        · rename_i store
          subst store
          cases quiet
        · obtain ⟨⟨w, flag, _⟩, _, result⟩ := Option.map_eq_some_iff.1 performed
          obtain ⟨rfl, _⟩ := Prod.mk.inj result
          rfl
      have other : op ≠ .jmppop := by
        rintro rfl
        cases quiet
      have stays : ∀ {x : String},
          ((alu.perform op x s).map fun r => (i + 1, r.1)) = some (j, t) →
            Leads lines calls jumps i returns j returns ∧ Writes stores s t := by
        intro x mapped
        obtain ⟨⟨u, jumps⟩, performed, result⟩ := Option.map_eq_some_iff.1 mapped
        obtain ⟨rfl, rfl⟩ := Prod.mk.inj result
        exact ⟨next (by simp [other]), fun cell _ => congrFun (keeps performed).1 cell⟩
      dsimp only at stepped
      split at stepped
      · exact stays stepped
      · split at stepped
        · exact stays stepped
        · cases stepped
      · rename_i kind
        exact absurd kind (by cases op <;> first | decide | cases quiet)
      · cases stepped
  | @jump op label jump target =>
      have keeps : ∀ {u : State String} {jumps : Bool},
          alu.perform op label s = some (u, jumps) → u = s := by
        intro u jumps performed
        cases op <;> first
          | (cases jump; done)
          | exact (Prod.mk.inj (Option.some.inj performed)).1.symm
          | cases performed
      have kind : op.operandKind = .code := by cases op <;> first | rfl | cases jump
      simp only [AssemblyLine.unary, kind] at stepped
      obtain ⟨⟨u, jumps⟩, performed, result⟩ := Option.bind_eq_some_iff.1 stepped
      obtain rfl := keeps performed
      cases jumps with
      | false =>
          obtain ⟨rfl, rfl⟩ := Prod.mk.inj (Option.some.inj result)
          exact ⟨next (by simp [AssemblyLine.unary]), fun _ _ => rfl⟩
      | true =>
          obtain ⟨place, there, result⟩ := Option.map_eq_some_iff.1 result
          obtain ⟨rfl, rfl⟩ := Prod.mk.inj result
          exact ⟨.jump target there, fun _ _ => rfl⟩
  | label =>
      obtain ⟨rfl, rfl⟩ := Prod.mk.inj (Option.some.inj stepped)
      exact ⟨next (by simp), fun _ _ => rfl⟩
  | back => simp [Opcode.operandKind, Alu.perform, Alu.effect] at stepped
  | verbatim loose => exact loose.elim

/-- STWR writes W to its cell. -/
theorem step_store {cell : String} (found : lines[a.place]? = some (.unary .stwr cell))
    (stepped : Step alu lines a b) :
    b.place = a.place + 1 ∧ b.returns = a.returns ∧ b.state.memory cell = a.state.w := by
  cases stepped with
  | line stepped =>
      simp only [lineStep, found, AssemblyLine.unary, Opcode.operandKind] at stepped
      split at stepped
      · obtain ⟨rfl, rfl⟩ := Prod.mk.inj (Option.some.inj stepped)
        exact ⟨rfl, rfl, State.store_same ..⟩
      · cases stepped
  | call here => cases here.symm.trans found
  | back here => cases here.symm.trans found
  | device here device =>
      obtain ⟨rfl, _⟩ := AssemblyLine.instruction.inj (Option.some.inj (here.symm.trans found))
      cases device
  | devicePass here device =>
      obtain ⟨rfl, _⟩ := AssemblyLine.instruction.inj (Option.some.inj (here.symm.trans found))
      cases device
  | deviceJump here device =>
      obtain ⟨rfl, _⟩ := AssemblyLine.instruction.inj (Option.some.inj (here.symm.trans found))
      cases device
  | verbatim here => cases here.symm.trans found

/-- **A step leads where its line allows, and writes what its line allows.** -/
theorem leads_of_step (found : lines[a.place]? = some line)
    (flows : line.Flows stores calls jumps False) (stepped : Step alu lines a b) :
    Leads lines calls jumps a.place a.returns b.place b.returns ∧
      Writes stores a.state b.state := by
  cases stepped with
  | line stepped => exact leads_of_lineStep found flows stepped _
  | call here target =>
      obtain rfl := Option.some.inj (here.symm.trans found)
      cases flows with
      | call called => exact ⟨.call (by simp [here, AssemblyLine.unary]) called target, fun _ _ => rfl⟩
      | quiet quiet => cases quiet
      | jump jump => cases jump
  | back here => exact ⟨.back here rfl, fun _ _ => rfl⟩
  | @device _ _ _ op _ here device w flag =>
      have other : op ≠ .jmppop := by
        rintro rfl
        cases device
      exact ⟨.next (by simp [here, other]), fun _ _ => rfl⟩
  | devicePass here device => exact ⟨.next (by simp [here, AssemblyLine.unary]), fun _ _ => rfl⟩
  | @deviceJump _ _ _ _ op _ here device target =>
      obtain rfl := Option.some.inj (here.symm.trans found)
      cases flows with
      | store => cases device
      | call => cases device
      | quiet quiet =>
          cases op <;> first | (cases device; done) | cases quiet
      | jump _ allowed => exact ⟨.jump allowed target, fun _ _ => rfl⟩
  | verbatim here =>
      obtain rfl := Option.some.inj (here.symm.trans found)
      cases flows with
      | verbatim loose => exact loose.elim

end Lead

/-! ## Confined runs -/

/-- Where a call or jump to a name leads, `inner` holds. -/
def Enters (lines : List AssemblyLine) (inner : Nat → Prop) (name : String) : Prop :=
  ∀ j, labelPlace? lines name = some j → inner j

/-- From `outer` code leads straight on to `stop`, with calls into `inner`, which is left
by returns only; and nothing writes the cell. -/
structure Confined (lines : List AssemblyLine) (outer inner : Nat → Prop) (stop : Nat)
    (cell : String) : Prop where
  outer : ∀ i, outer i → i ≠ stop → outer (i + 1) ∧
    ∃ line, lines[i]? = some line ∧ line.Straight (· ≠ cell) (Enters lines inner)
  inner : ∀ i, inner i → ∃ line, lines[i]? = some line ∧
    line.Flows (· ≠ cell) (Enters lines inner) (Enters lines inner) False ∧
      (line ≠ .instruction .jmppop [] → inner (i + 1))

/-- A run is in its own piece of code, or in procedures that were called from there. -/
inductive Within (outer inner : Nat → Prop) (bottom : List Nat) : Nat → List Nat → Prop
  | outer {i : Nat} (here : outer i) : Within outer inner bottom i bottom
  | inner {i : Nat} {frames : List Nat} {back : Nat} (here : inner i)
      (within : ∀ place ∈ frames, inner place) (returning : outer back) :
      Within outer inner bottom i (frames ++ back :: bottom)

/-- A step from any place but `stop`, with the returns given. -/
def StepBefore (alu : Alu) (lines : List AssemblyLine) (stop : Nat) (returns : List Nat)
    (a b : Running) : Prop :=
  ¬(a.place = stop ∧ a.returns = returns) ∧ Step alu lines a b

section Confined

variable {outer inner : Nat → Prop} {stop : Nat} {bottom : List Nat} {cell : String}
  {a b : Running}

theorem within_of_step (confined : Confined lines outer inner stop cell)
    (within : Within outer inner bottom a.place a.returns)
    (stepped : StepBefore alu lines stop bottom a b) :
    Within outer inner bottom b.place b.returns ∧ b.state.memory cell = a.state.memory cell := by
  obtain ⟨place, returns, s⟩ := a
  obtain ⟨going, stepped⟩ := stepped
  cases within with
  | outer here =>
      have before : place ≠ stop := fun same => going ⟨same, rfl⟩
      obtain ⟨next, line, found, straight⟩ := confined.outer place here before
      have flows : line.Flows (· ≠ cell) (Enters lines inner) (fun _ => False) False :=
        straight.flows
      obtain ⟨leads, writes⟩ := leads_of_step found flows stepped
      refine ⟨?_, writes cell fun differs => differs rfl⟩
      generalize b.place = j at leads ⊢
      generalize b.returns = after at leads ⊢
      cases leads with
      | next => exact .outer next
      | call _ called target => exact @Within.inner _ _ _ j [] _ (called _ target) (by simp) next
      | jump allowed => exact allowed.elim
      | back back =>
          obtain rfl := Option.some.inj (back.symm.trans found)
          cases straight with
          | quiet quiet => cases quiet
  | @inner frames back here within returning =>
      obtain ⟨line, found, flows, next⟩ := confined.inner place here
      obtain ⟨leads, writes⟩ := leads_of_step found flows stepped
      refine ⟨?_, writes cell fun differs => differs rfl⟩
      have onward : lines[place]? ≠ some (.instruction .jmppop []) → inner (place + 1) :=
        fun other => next fun same => other (same ▸ found)
      generalize b.place = j at leads ⊢
      generalize b.returns = after at leads ⊢
      cases leads with
      | next other => exact .inner (onward other) within returning
      | call other called target =>
          refine @Within.inner _ _ _ j ((place + 1) :: frames) _ (called _ target) ?_ returning
          simpa using ⟨onward other, within⟩
      | jump allowed target => exact .inner (allowed _ target) within returning
      | back _ popped =>
          cases frames with
          | nil =>
              obtain ⟨rfl, rfl⟩ := List.cons.inj popped
              exact .outer returning
          | cons frame frames =>
              obtain ⟨rfl, rfl⟩ := List.cons.inj popped
              exact .inner (within _ (List.mem_cons_self ..))
                (fun other there => within other (List.mem_cons_of_mem _ there)) returning

/-- **What no line on the way writes is kept.** -/
theorem kept_of_confined (confined : Confined lines outer inner stop cell)
    (within : Within outer inner bottom a.place a.returns)
    (ran : Relation.ReflTransGen (StepBefore alu lines stop bottom) a b) :
    b.state.memory cell = a.state.memory cell := by
  suffices Within outer inner bottom b.place b.returns ∧
      b.state.memory cell = a.state.memory cell from this.2
  induction ran with
  | refl => exact ⟨within, rfl⟩
  | tail _ stepped ih =>
      obtain ⟨here, kept⟩ := ih
      obtain ⟨there, same⟩ := within_of_step confined here stepped
      exact ⟨there, same.trans kept⟩

end Confined

/-! ## Runs without devices -/

/-- The step at a place, if no device is asked. -/
def step? (alu : Alu) (lines : List AssemblyLine) (a : Running) : Option Running :=
  match lines[a.place]?, a.returns with
  | some (.instruction .jmppush [name]), _ =>
      (labelPlace? lines name).map fun j => ⟨j, (a.place + 1) :: a.returns, a.state⟩
  | some (.instruction .jmppop []), place :: rest => some ⟨place, rest, a.state⟩
  | _, _ => (lineStep alu lines (a.place, a.state)).map fun (j, t) => ⟨j, a.returns, t⟩

theorem step_of_step? {a b : Running} (stepped : step? alu lines a = some b) :
    Step alu lines a b := by
  obtain ⟨place, returns, s⟩ := a
  unfold step? at stepped
  dsimp only at stepped
  split at stepped
  · rename_i name found
    obtain ⟨j, target, rfl⟩ := Option.map_eq_some_iff.1 stepped
    exact .call found target
  · rename_i found
    obtain rfl := Option.some.inj stepped
    exact .back found
  · obtain ⟨⟨j, t⟩, here, rfl⟩ := Option.map_eq_some_iff.1 stepped
    exact .line here

/-- So many steps, none of them from `stop` with the returns given. -/
def runBefore (alu : Alu) (lines : List AssemblyLine) (stop : Nat) (returns : List Nat) :
    Nat → Running → Option Running
  | 0, a => some a
  | n + 1, a =>
      if a.place = stop ∧ a.returns = returns then none
      else (step? alu lines a).bind (runBefore alu lines stop returns n)

theorem steps_of_runBefore {stop : Nat} {returns : List Nat} {n : Nat} {a b : Running}
    (ran : runBefore alu lines stop returns n a = some b) :
    Relation.ReflTransGen (StepBefore alu lines stop returns) a b := by
  induction n generalizing a with
  | zero =>
      obtain rfl := Option.some.inj ran
      exact .refl
  | succ n ih =>
      rw [runBefore] at ran
      split at ran
      · cases ran
      · rename_i going
        obtain ⟨c, stepped, onward⟩ := Option.bind_eq_some_iff.1 ran
        exact .head ⟨going, step_of_step? stepped⟩ (ih onward)

end Ppp

end PulseSequencer
