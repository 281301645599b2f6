import PulseSequencer.Machine.Instruction

/-
# PulseSequencer.Proofs.Machine.Accumulator -- what the instructions of a program do

The processor has an accumulator W, a comparison flag, and a memory of words.  Its
arithmetic unit is left open: `Alu` is any interpretation of its operations.
`Alu.perform` is the effect of one instruction, and `Alu.step` executes the
instruction at a place of a program.  Programs that do not call procedures need no
more; whatever else there is stops the machine.

A machine goes one way, so that a run that ends passes through every place that the
machine reaches on the way (`run_of_reaches`).
-/

namespace PulseSequencer.Machine

set_option autoImplicit false

abbrev Word := UInt64

/-- An interpretation of the arithmetic unit. -/
structure Alu where
  add : Word → Word → Word
  sub : Word → Word → Word
  mul : Word → Word → Word
  div : Word → Word → Word
  and : Word → Word → Word
  or : Word → Word → Word
  shl : Word → Word → Word
  shr : Word → Word → Word
  equal : Word → Word → Bool
  notEqual : Word → Word → Bool
  less : Word → Word → Bool
  greater : Word → Word → Bool
  greaterEqual : Word → Word → Bool
  lessEqual : Word → Word → Bool

/-- Words as unsigned numbers. -/
def unsignedAlu : Alu where
  add := (· + ·)
  sub := (· - ·)
  mul := (· * ·)
  div := (· / ·)
  and := (· &&& ·)
  or := (· ||| ·)
  shl := (· <<< ·)
  shr := (· >>> ·)
  equal := (· == ·)
  notEqual := (· != ·)
  less x y := decide (x < y)
  greater x y := decide (x > y)
  greaterEqual x y := decide (x ≥ y)
  lessEqual x y := decide (x ≤ y)

/-- The accumulator, the comparison flag, and a memory whose cells are named by `α`. -/
structure State (α : Type) where
  memory : α → Word
  w : Word
  flag : Bool

namespace State

variable {α : Type} [DecidableEq α]

/-- Writes W to a cell. -/
def store (s : State α) (cell : α) : State α :=
  { s with memory := fun c => if c = cell then s.w else s.memory c }

@[simp] theorem store_w (s : State α) (cell : α) : (s.store cell).w = s.w := rfl

@[simp] theorem store_same (s : State α) (cell : α) : (s.store cell).memory cell = s.w := by
  simp only [store, if_true]

theorem store_other (s : State α) {cell other : α} (differs : other ≠ cell) :
    (s.store cell).memory other = s.memory other := by
  simp only [store, differs, if_false]

end State

/-- What an instruction makes of W, the word of its operand, and the flag: W and the
flag behind it, and whether it jumps to its operand. -/
def Alu.effect (alu : Alu) (op : Opcode) (w x : Word) (flag : Bool) :
    Option (Word × Bool × Bool) :=
  match op with
  | .ldwr => some (x, flag, false)
  | .clrw => some (0, flag, false)
  | .addw => some (alu.add w x, flag, false)
  | .subw => some (alu.sub w x, flag, false)
  | .multw => some (alu.mul w x, flag, false)
  | .divw => some (alu.div w x, flag, false)
  | .andw => some (alu.and w x, flag, false)
  | .orw => some (alu.or w x, flag, false)
  | .shl => some (alu.shl w x, flag, false)
  | .shr => some (alu.shr w x, flag, false)
  | .cmpequal => some (w, alu.equal w x, false)
  | .cmpnotequal => some (w, alu.notEqual w x, false)
  | .cmpless => some (w, alu.less w x, false)
  | .cmpgreater => some (w, alu.greater w x, false)
  | .cmpge => some (w, alu.greaterEqual w x, false)
  | .cmple => some (w, alu.lessEqual w x, false)
  | .jmp => some (w, flag, true)
  | .jmpz => some (w, flag, w == 0)
  | .jmpnz => some (w, flag, w != 0)
  | .jmpcmp => some (w, flag, flag)
  | .jmpncmp => some (w, flag, !flag)
  | _ => none

/-- Only instructions with a data address read their operand. -/
theorem Alu.effect_eq_of_kind (alu : Alu) {op : Opcode} (kind : op.operandKind ≠ .data)
    (w x y : Word) (flag : Bool) : alu.effect op w x flag = alu.effect op w y flag := by
  cases op <;> first | rfl | exact absurd rfl kind

/-- What an instruction does with a state, and whether it jumps to its operand. -/
def Alu.perform {α : Type} [DecidableEq α] (alu : Alu) (op : Opcode) (x : α) (s : State α) :
    Option (State α × Bool) :=
  if op = .stwr then some (s.store x, false)
  else (alu.effect op s.w (s.memory x) s.flag).map fun (w, flag, jumps) =>
    ({ s with w, flag }, jumps)

/-- Only instructions with a code address jump. -/
theorem Alu.perform_not_jumps {α : Type} [DecidableEq α] (alu : Alu) {op : Opcode} {x : α}
    {s t : State α} {jumps : Bool} (kind : op.operandKind ≠ .code)
    (performed : alu.perform op x s = some (t, jumps)) : jumps = false := by
  unfold perform at performed
  split at performed
  · exact (Prod.mk.inj (Option.some.inj performed)).2.symm
  · obtain ⟨⟨w, flag, jumps'⟩, effect, result⟩ := Option.map_eq_some_iff.1 performed
    obtain ⟨_, rfl⟩ := Prod.mk.inj result
    cases op <;> first
      | exact absurd rfl kind
      | exact (Prod.mk.inj (Prod.mk.inj (Option.some.inj effect)).2).2.symm
      | exact absurd effect.symm (Option.some_ne_none _)

/-- A place of a program, and the state there. -/
abbrev At (α : Type) := Nat × State α

/-- Executes the instruction at a place of assembled code. -/
def Alu.step (alu : Alu) (code : List Instruction) (at' : At Nat) : Option (At Nat) :=
  match code[at'.1]? with
  | none => none
  | some instruction =>
      (alu.perform instruction.opcode instruction.operand at'.2).map fun (s, jumps) =>
        (if jumps then instruction.operand else at'.1 + 1, s)

/-! ## Runs -/

section Runs

variable {σ : Type} {step : σ → Option σ} {a b c : σ}

/-- The state after so many steps. -/
def run (step : σ → Option σ) : Nat → σ → Option σ
  | 0, a => some a
  | n + 1, a => (step a).bind (run step n)

/-- Whether a machine comes from one state to another. -/
def Reaches (step : σ → Option σ) (a b : σ) : Prop := ∃ n, run step n a = some b

theorem run_add (step : σ → Option σ) (m n : Nat) (a : σ) :
    run step (m + n) a = (run step m a).bind (run step n) := by
  induction m generalizing a with
  | zero => simp only [Nat.zero_add, run, Option.bind_some]
  | succ m ih =>
      rw [Nat.succ_add, run, run]
      cases step a with
      | none => rfl
      | some b => exact ih b

theorem Reaches.refl (a : σ) : Reaches step a a := ⟨0, rfl⟩

theorem Reaches.head (first : step a = some b) (rest : Reaches step b c) : Reaches step a c := by
  obtain ⟨n, rest⟩ := rest
  exact ⟨n + 1, by rw [run, first]; exact rest⟩

theorem Reaches.single (first : step a = some b) : Reaches step a b := .head first (.refl b)

theorem Reaches.trans (first : Reaches step a b) (rest : Reaches step b c) : Reaches step a c := by
  obtain ⟨m, first⟩ := first
  obtain ⟨n, rest⟩ := rest
  exact ⟨m + n, by rw [run_add, first]; exact rest⟩

/-- A run that ends where the machine stops passes through what the machine reaches. -/
theorem run_of_reaches {n : Nat} (ends : run step n a = some c) (stops : step c = none)
    (reaches : Reaches step a b) : ∃ m, m ≤ n ∧ run step m b = some c := by
  obtain ⟨k, reaches⟩ := reaches
  induction k generalizing a n with
  | zero =>
      obtain rfl := Option.some.inj reaches
      exact ⟨n, Nat.le_refl n, ends⟩
  | succ k ih =>
      rw [run, Option.bind_eq_some_iff] at reaches
      obtain ⟨next, first, rest⟩ := reaches
      cases n with
      | zero =>
          obtain rfl := Option.some.inj ends
          rw [stops] at first
          exact absurd first.symm (Option.some_ne_none next)
      | succ n =>
          rw [run, first] at ends
          obtain ⟨m, le, ends⟩ := ih ends rest
          exact ⟨m, Nat.le_succ_of_le le, ends⟩

/-- It takes fewer steps to the end after a first step. -/
theorem run_of_step {n : Nat} (ends : run step n a = some c) (stops : step c = none)
    (first : step a = some b) : ∃ m, m < n ∧ run step m b = some c := by
  cases n with
  | zero =>
      obtain rfl := Option.some.inj ends
      rw [stops] at first
      exact absurd first.symm (Option.some_ne_none b)
  | succ n =>
      rw [run, first] at ends
      exact ⟨n, Nat.lt_succ_self n, ends⟩

theorem reaches_of_reaches (ends : Reaches step a c) (stops : step c = none)
    (reaches : Reaches step a b) : Reaches step b c := by
  obtain ⟨n, ends⟩ := ends
  obtain ⟨m, _, rest⟩ := run_of_reaches ends stops reaches
  exact ⟨m, rest⟩

/-- A machine stops in one state at most. -/
theorem Reaches.unique (first : Reaches step a b) (second : Reaches step a c)
    (firstStops : step b = none) (secondStops : step c = none) : b = c := by
  obtain ⟨n, rest⟩ := reaches_of_reaches first firstStops second
  cases n with
  | zero => exact (Option.some.inj rest).symm
  | succ n =>
      rw [run, secondStops] at rest
      exact absurd rest.symm (Option.some_ne_none b)

end Runs

end PulseSequencer.Machine
