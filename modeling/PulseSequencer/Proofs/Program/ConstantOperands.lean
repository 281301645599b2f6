import PulseSequencer.Proofs.Program.OperandLayout

/-
# PulseSequencer.Proofs.Program.ConstantOperands -- constants as operands

An operand that is no number and names no label and no variable stands for the constant of its
name.  `Value.integer?` is the integer that a value is, without any bound.  On its way into an
instruction it is held inside 64 bits (`HeldAs`) and cut to 32 bits, and only what is left is
compared with the room for the operand.  So an operand is the constant itself exactly if the
constant is a number of 32 bits (`constant_of_load`), and such a constant is never too large
for its room in a program that was assembled.
-/

namespace PulseSequencer

open PulseSequencer.Assembler

set_option autoImplicit false

/-! ## Integers -/

/-- The integer that a double is. -/
def Number.integer? (x : Float) : Option Int :=
  match Binary.ofFloat x with
  | .finite negative mantissa exponent =>
      if Binary.isWhole mantissa exponent then
        some (if negative then -Int.ofNat (Binary.wholePart mantissa exponent)
          else Int.ofNat (Binary.wholePart mantissa exponent))
      else none
  | _ => none

/-- The integer that a value is, however large. -/
def Value.integer? : Value → Option Int
  | .bool b => some (ofBool b)
  | .int n => some n
  | .float x => Number.integer? x
  | .quantity q => if q.isPlain then Number.integer? q.magnitude else none
  | _ => none

/-- An integer as 64 bits hold it: one outside of their range becomes the end of the range
that it lies beyond. -/
def HeldAs (i held : Int) : Prop :=
  held = i ∨ held = pow2 63 - 1 ∧ held < i ∨ held = -pow2 63 ∧ i < held

theorem Number.heldAs_toInt64 {x : Float} (whole : Number.isWhole x = true) :
    ∃ i, Number.integer? x = some i ∧ HeldAs i (Number.toInt64 x) := by
  rw [isWhole] at whole
  rw [integer?, toInt64, roundWithin]
  cases read : Binary.ofFloat x with
  | nan => rw [read] at whole; cases whole
  | infinite negative => rw [read] at whole; cases whole
  | finite negative mantissa exponent =>
      rw [read] at whole
      dsimp only at whole ⊢
      rw [if_pos whole, Rounding.apply, if_neg Bool.false_ne_true]
      refine ⟨_, rfl, ?_⟩
      have ends : (pow2 63 : Int) = 9223372036854775808 := rfl
      rw [HeldAs, ends]
      omega

/-- A value is taken for what 64 bits hold of the integer that it is. -/
theorem Value.heldAs_toInt {v : Value} {held : Int} (taken : v.toInt = .ok held) :
    ∃ i, v.integer? = some i ∧ HeldAs i held := by
  cases v with
  | bool b => exact ⟨_, rfl, .inl (Except.ok.inj taken).symm⟩
  | int n => exact ⟨_, rfl, .inl (Except.ok.inj taken).symm⟩
  | float x =>
      rw [toInt] at taken
      split at taken
      · rename_i whole
        obtain rfl := Except.ok.inj taken
        exact Number.heldAs_toInt64 whole
      · cases taken
  | quantity q =>
      rw [toInt] at taken
      split at taken
      · rename_i number
        obtain ⟨plain, whole⟩ := Bool.and_eq_true_iff.1 number
        obtain rfl := Except.ok.inj taken
        rw [integer?, if_pos plain]
        exact Number.heldAs_toInt64 whole
      · cases taken
  | text s => cases taken
  | list items => cases taken
  | dict entries => cases taken

/-- What is left of an integer is the integer itself exactly if it has 32 bits. -/
theorem HeldAs.cut_eq_iff {i held : Int} (heldAs : HeldAs i held) :
    ((held % pow2 32).toNat : Int) = i ↔ 0 ≤ i ∧ i < pow2 32 := by
  have ends : (pow2 63 : Int) = 9223372036854775808 := rfl
  have cut : (pow2 32 : Int) = 4294967296 := rfl
  rw [HeldAs, ends] at heldAs
  rw [cut]
  omega

/-! ## Shares of an operand -/

/-- What the operand in a place gives to the number of an instruction: of two operands the
first is the channel and the second the data address, and a single one is the number. -/
def share : Nat → Nat → Nat → Nat
  | 2, 0, n => n / 4096
  | 2, _, n => n % 4096
  | _, _, n => n

/-- The bound of what an operand can give. -/
def room : Nat → Nat → Nat
  | 2, 0 => 0x100
  | 2, _ => 0x1000
  | _, _ => Instruction.operandLimit

/-- Each operand gives the number that it stands for. -/
theorem Program.Operand.share_eq {p : Program} {kind : OperandKind} {operands : List (List Char)}
    {n place : Nat} {text : List Char} (makes : p.Operand kind operands n)
    (limit : n < Instruction.operandLimit) (used : operands[place]? = some text) :
    ∃ m, p.Denotes kind text m ∧ share operands.length place n = m ∧
      m < room operands.length place := by
  cases makes with
  | none => cases used
  | one denotes =>
      cases place with
      | zero =>
          obtain rfl := Option.some.inj used
          exact ⟨n, denotes, rfl, limit⟩
      | succ place => cases used
  | @two first second channel data upper lower channel_le data_le =>
      have below : data < 2 ^ 12 := by omega
      rw [← Nat.shiftLeft_add_eq_or_of_lt below, Nat.shiftLeft_eq]
      match place with
      | 0 =>
          obtain rfl := Option.some.inj used
          refine ⟨channel, upper, ?_, ?_⟩
          · show (channel * 2 ^ 12 + data) / 4096 = channel
            omega
          · show channel < 0x100
            omega
      | 1 =>
          obtain rfl := Option.some.inj used
          refine ⟨data, lower, ?_, ?_⟩
          · show (channel * 2 ^ 12 + data) % 4096 = data
            omega
          · show data < 0x1000
            omega
      | place + 2 => cases used

/-! ## Programs -/

namespace Program

/-- An operand that is no number and names no label and no variable. -/
structure Unplaced (p : Program) (text : List Char) : Prop where
  noLiteral : literal? text = none
  noLabel : p.labels.get? (String.ofList text) = none
  noCell : p.vars.get? (String.ofList text) = none

/-- The integer of the constant that an operand names. -/
def constant? (p : Program) (text : List Char) : Option Int :=
  (p.constants.get? (String.ofList text)).bind Value.integer?

/-- Such an operand stands for what is left of a constant. -/
theorem Unplaced.cut_of_denotes {p : Program} {kind : OperandKind} {text : List Char} {n : Nat}
    (unplaced : p.Unplaced text) (denotes : p.Denotes kind text n) :
    ∃ i held, p.constant? text = some i ∧ HeldAs i held ∧ n = (held % pow2 32).toNat := by
  obtain ⟨noLiteral, noLabel, noCell⟩ := unplaced
  cases denotes with
  | literal read => rw [noLiteral] at read; cases read
  | labelOfJump _ _ label => rw [noLabel] at label; cases label
  | variableOfJump _ _ _ cell => rw [noCell] at cell; cases cell
  | variableOfOther _ _ cell => rw [noCell] at cell; cases cell
  | labelOfOther _ _ _ label => rw [noLabel] at label; cases label
  | @constant value held _ _ _ found whole =>
      obtain ⟨i, exact, heldAs⟩ := Value.heldAs_toInt whole
      exact ⟨i, held, by rw [constant?, found, Option.bind_some, exact], heldAs, rfl⟩

/-- **A constant is cut to 32 bits before it is compared with its room.**  In a program that was
assembled, an operand that is no number and names no label and no variable names a constant
that is an integer.  It gives what is left of the constant, which has room; that is the
constant itself exactly if the constant is a number of 32 bits, so that a constant of 32 bits
for which there is no room is refused. -/
theorem constant_of_load {p q : Program} {name text : String} {library : Library}
    {notices : List Notice} (loaded : p.load name text library = .ok (q, notices))
    {j place : Nat} {line operand : List Char} {opcode : Opcode} {operands : List (List Char)}
    (there : q.sourceLines[j]? = some line) (said : carried? line = some (opcode, operands))
    (used : operands[place]? = some operand) (unplaced : q.Unplaced operand) :
    ∃ n i held, q.code[address q.sourceLines j]? = some ⟨opcode, n⟩ ∧
      q.constant? operand = some i ∧ HeldAs i held ∧
      share operands.length place n = (held % pow2 32).toNat ∧
      share operands.length place n < room operands.length place ∧
      ((share operands.length place n : Int) = i ↔ 0 ≤ i ∧ i < pow2 32) := by
  rw [load] at loaded
  obtain ⟨sources, _, ran⟩ := bind_eq_ok.1 loaded
  obtain ⟨d, ⟨_, n⟩, tables, made, coded⟩ := instruction_of_line ran there said
  obtain ⟨rfl, resolved⟩ := resolve_of_instruction made
  obtain ⟨makes, limit⟩ := operand_and_lt_of_resolve tables resolved
  obtain ⟨m, denotes, given, fits⟩ := makes.share_eq limit used
  obtain ⟨i, held, constant, heldAs, rfl⟩ := unplaced.cut_of_denotes denotes
  refine ⟨n, i, held, coded, constant, heldAs, given, given ▸ fits, ?_⟩
  rw [given]
  exact heldAs.cut_eq_iff

/-- A channel and a data address given by constants, the address below zero. -/
def wrappedAddress : String := "const CH 3\nconst LOW -4294967288\nDDSFRQ CH, LOW"

theorem constant_of_load_wrappedAddress :
    ∃ q notices, (withLimits {}).load "main.pp" wrappedAddress Library.empty = .ok (q, notices) ∧
      q.sourceLines[2]? = some "DDSFRQ CH, LOW".toList ∧
      carried? "DDSFRQ CH, LOW".toList = some (.ddsfrq, ["CH".toList, "LOW".toList]) ∧
      q.Unplaced "CH".toList ∧ q.constant? "CH".toList = some 3 ∧
      ∃ n, q.code[address q.sourceLines 2]? = some ⟨.ddsfrq, n⟩ ∧ share 2 0 n = 3 := by
  have observed : ((withLimits {}).load "main.pp" wrappedAddress Library.empty).toOption.map
      (fun loaded => (loaded.1.sourceLines[2]?, loaded.1.labels.get? "CH",
        (loaded.1.vars.get? "CH").map Variable.slot, loaded.1.constant? "CH".toList)) =
        some (some "DDSFRQ CH, LOW".toList, none, none, some 3) := by
    decide +kernel
  obtain ⟨⟨q, notices⟩, found, same⟩ := Option.map_eq_some_iff.1 observed
  obtain ⟨there, rest⟩ := Prod.mk.inj same
  obtain ⟨noLabel, rest⟩ := Prod.mk.inj rest
  obtain ⟨noCell, constant⟩ := Prod.mk.inj rest
  have loaded := ok_of_toOption found
  have said : carried? "DDSFRQ CH, LOW".toList =
      some (.ddsfrq, ["CH".toList, "LOW".toList]) := by decide +kernel
  have unplaced : q.Unplaced "CH".toList := ⟨by decide, noLabel, Option.map_eq_none_iff.1 noCell⟩
  have used : ["CH".toList, "LOW".toList][0]? = some "CH".toList := rfl
  obtain ⟨n, i, _, coded, named, _, _, _, kept⟩ :=
    constant_of_load loaded there said used unplaced
  obtain rfl := Option.some.inj (named.symm.trans constant)
  exact ⟨q, notices, loaded, there, said, unplaced, constant, n, coded,
    Int.ofNat.inj (kept.2 (by decide))⟩

/-- **Constants are altered.**  A constant of more than 32 bits and one below zero are taken for
other numbers. -/
theorem constant_altered :
    ∃ q notices, (withLimits {}).load "main.pp"
        "const BIG 4294967301\nconst LOW -4294967288\nDDSFRQ BIG, LOW" Library.empty =
          .ok (q, notices) ∧
      q.constant? "BIG".toList = some 4294967301 ∧ q.constant? "LOW".toList = some (-4294967288) ∧
      q.code = [⟨.ddsfrq, 5 * 4096 + 8⟩] := by
  have observed : ((withLimits {}).load "main.pp"
      "const BIG 4294967301\nconst LOW -4294967288\nDDSFRQ BIG, LOW" Library.empty).toOption.map
        (fun loaded => (loaded.1.constant? "BIG".toList, loaded.1.constant? "LOW".toList,
          loaded.1.code)) =
        some (some 4294967301, some (-4294967288), [⟨.ddsfrq, 5 * 4096 + 8⟩]) := by
    decide +kernel
  obtain ⟨⟨q, notices⟩, found, same⟩ := Option.map_eq_some_iff.1 observed
  obtain ⟨big, rest⟩ := Prod.mk.inj same
  obtain ⟨low, code⟩ := Prod.mk.inj rest
  exact ⟨q, notices, ok_of_toOption found, big, low, code⟩

end Program

end PulseSequencer
