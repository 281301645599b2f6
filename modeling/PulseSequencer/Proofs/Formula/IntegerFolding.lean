import PulseSequencer.Formula.Evaluator
import Mathlib.Algebra.Ring.Parity
import Mathlib.Data.Rat.Floor
import Mathlib.Tactic.Tauto

/-
# PulseSequencer.Proofs.Formula.IntegerFolding -- integers in formulas

A sum, difference, product or power of integers is an integer as long as it fits 64 bits, and a
float beyond that; a remainder always fits, and fails where it has no answer.  So an operator
gives an integer exactly if its operands are in its domain and the exact result fits
(`intBinary_eq_int_iff`).  A float never becomes an integer again (`escapes_of_left`,
`escapes_of_right`), so that nothing inexact is hidden in a result that is an integer:
`Evaluator.integer_iff_folds`.
-/

namespace PulseSequencer

set_option autoImplicit false

namespace Formula

/-! ## Exact results -/

/-- The operators whose results on integers are integers. -/
def integerOps : List BinaryOp := [.add, .sub, .mul, .rem, .pow]

/-- The exact result of an operator on integers; a remainder is what the rounded down quotient
leaves. -/
def exactResult (op : BinaryOp) (a b : Int) : Int :=
  match op with
  | .add => a + b
  | .sub => a - b
  | .mul => a * b
  | .rem => a - b * ⌊(a / b : Rat)⌋
  | .pow => a ^ b.toNat
  | _ => 0

/-- The operands that an operator has a result for.  The remainder of the least integer by `-1` is
left out, and so are exponents of more than 32 bits. -/
def InDomain (op : BinaryOp) (a b : Int) : Prop :=
  match op with
  | .rem => b ≠ 0 ∧ ¬(a = -2 ^ 63 ∧ b = -1)
  | .pow => 0 ≤ b ∧ b ≤ 4294967295
  | _ => True

instance (op : BinaryOp) (a b : Int) : Decidable (InDomain op a b) := by
  unfold InDomain
  cases op <;> infer_instance

theorem fits64_iff {n : Int} : fits64 n = true ↔ -2 ^ 63 ≤ n ∧ n < 2 ^ 63 := by
  rw [fits64, Bool.and_eq_true, decide_eq_true_eq, decide_eq_true_eq]
  rfl

theorem checked_eq_some_iff {n m : Int} : checked n = some m ↔ fits64 n = true ∧ n = m := by
  rw [checked]
  split <;> simp_all

/-- From two on, a power with an exponent of 64 or more is too large. -/
theorem not_fits64_pow {a : Int} {k : Nat} (base : 2 ≤ a.natAbs) (large : 64 ≤ k) :
    fits64 (a ^ k) = false := by
  have size : 2 ^ 64 ≤ (a ^ k).natAbs := by
    rw [Int.natAbs_pow]
    exact (Nat.pow_le_pow_right (by decide) large).trans (Nat.pow_le_pow_left base k)
  rw [← Bool.not_eq_true, fits64_iff]
  omega

theorem powInt?_eq_some_iff {a b n : Int} : powInt? a b = some n ↔
    InDomain .pow a b ∧ fits64 (a ^ b.toNat) = true ∧ a ^ b.toNat = n := by
  have width : (pow2 32 : Int) = 4294967296 := rfl
  rw [powInt?, width, InDomain]
  split
  · simp only [reduceCtorEq, false_iff]
    omega
  · rename_i inside
    have domain : 0 ≤ b ∧ b ≤ 4294967295 := by omega
    simp only [domain, true_and]
    split
    · exact checked_eq_some_iff
    · rename_i large
      obtain ⟨k, rfl⟩ := Int.eq_ofNat_of_zero_le domain.1
      rw [Int.toNat_natCast]
      split
      · rename_i small
        have same : a ^ k = a := by
          rcases small with rfl | rfl
          · exact zero_pow (by omega)
          · exact one_pow k
        have fits : fits64 a = true := by rcases small with rfl | rfl <;> rfl
        simp [same, fits]
      · split
        · rename_i minus
          subst minus
          rcases Nat.even_or_odd k with even | odd
          · rw [even.neg_one_pow, if_pos (by exact_mod_cast Nat.even_iff.1 even)]
            simp [fits64_iff]
          · rw [odd.neg_one_pow, if_neg (by have := Nat.odd_iff.1 odd; omega)]
            simp [fits64_iff]
        · simp [not_fits64_pow (a := a) (k := k) (by omega) (by omega)]

theorem floor_div_eq_fdiv (a b : Int) : ⌊(a / b : Rat)⌋ = a.fdiv b := by
  rcases Int.le_total 0 b with positive | negative
  · obtain ⟨d, rfl⟩ := Int.eq_ofNat_of_zero_le positive
    rw [Int.fdiv_eq_ediv_of_nonneg _ positive]
    exact_mod_cast Rat.floor_intCast_div_natCast a d
  · obtain ⟨d, minus⟩ := Int.eq_ofNat_of_zero_le (Int.neg_nonneg_of_nonpos negative)
    have turned : (a / b : Rat) = ((-a : Int) : Rat) / (d : Nat) := by
      rw [← neg_div_neg_eq, ← Int.cast_neg b, minus]
      push_cast
      rfl
    rw [turned, Rat.floor_intCast_div_natCast, ← minus,
      ← Int.fdiv_eq_ediv_of_nonneg _ (Int.neg_nonneg_of_nonpos negative), Int.neg_fdiv_neg]

/-- The remainder with the sign of the divisor. -/
theorem exactResult_rem (a b : Int) : exactResult .rem a b = a.fmod b := by
  rw [exactResult, floor_div_eq_fdiv, Int.fmod_def]

theorem fits64_fmod {a b : Int} (some' : b ≠ 0) (fits : fits64 b = true) :
    fits64 (a.fmod b) = true := by
  rw [fits64_iff] at fits ⊢
  rcases Int.lt_or_gt_of_ne some' with negative | positive
  · have turned := Int.neg_fmod_neg a b
    have low := Int.fmod_nonneg_of_pos (-a) (Int.neg_pos_of_neg negative)
    have high := Int.fmod_lt_of_pos (-a) (Int.neg_pos_of_neg negative)
    omega
  · have low := Int.fmod_nonneg_of_pos a positive
    have high := Int.fmod_lt_of_pos a positive
    omega

/-- Behind the three checks only the exact result is asked for. -/
theorem intBinary_eq_int_iff_exactInt? {op : BinaryOp} {a b n : Int} :
    intBinary op a b = .ok (.int n) ↔ ¬(op = .div ∧ b = 0) ∧ ¬(op = .rem ∧ b = 0) ∧
      ¬(op = .rem ∧ a = -2 ^ 63 ∧ b = -1) ∧ exactInt? op a b = some n := by
  rw [intBinary, show (-pow2 63 : Int) = -2 ^ 63 from rfl]
  split_ifs <;> cases exactInt? op a b <;> simp_all

/-- **An operator gives an integer exactly if the exact result fits**, and then it is that. -/
theorem intBinary_eq_int_iff {op : BinaryOp} (known : op ∈ integerOps) {a b n : Int}
    (fits : fits64 b = true) : intBinary op a b = .ok (.int n) ↔
      InDomain op a b ∧ fits64 (exactResult op a b) = true ∧ exactResult op a b = n := by
  rw [intBinary_eq_int_iff_exactInt?]
  simp only [integerOps, List.mem_cons, List.not_mem_nil, or_false] at known
  rcases known with rfl | rfl | rfl | rfl | rfl
  · simp [exactInt?, checked_eq_some_iff, InDomain, exactResult]
  · simp [exactInt?, checked_eq_some_iff, InDomain, exactResult]
  · simp [exactInt?, checked_eq_some_iff, InDomain, exactResult]
  · rw [exactResult_rem, exactInt?, InDomain, Option.some.injEq]
    have inside : b ≠ 0 → fits64 (a.fmod b) = true := fun some' => fits64_fmod some' fits
    simp only [reduceCtorEq, false_and, not_false_eq_true, true_and]
    tauto
  · simp [exactInt?, powInt?_eq_some_iff, exactResult]

theorem intBinary_cases (op : BinaryOp) (a b : Int) :
    (∃ n, intBinary op a b = .ok (.int n)) ∨ (∃ x, intBinary op a b = .ok (.float x)) ∨
      ∃ e, intBinary op a b = .error e := by
  rw [intBinary]
  split_ifs
  · exact .inr (.inr ⟨_, rfl⟩)
  · exact .inr (.inr ⟨_, rfl⟩)
  · exact .inr (.inr ⟨_, rfl⟩)
  · cases exactInt? op a b with
    | some n => exact .inl ⟨n, rfl⟩
    | none => exact .inr (.inl ⟨_, rfl⟩)

/-! ## Formulas of integers -/

/-- Literals of 64 bits, signs and the operators of integers. -/
inductive OfIntegers : Formula → Prop
  | literal {offset : Nat} {n : Int} (fits : fits64 n = true) : OfIntegers (.int offset n)
  | negation {offset : Nat} {x : Formula} (operand : OfIntegers x) :
      OfIntegers (.unary offset .neg x)
  | operation {offset : Nat} {op : BinaryOp} {x y : Formula} (known : op ∈ integerOps)
      (left : OfIntegers x) (right : OfIntegers y) : OfIntegers (.binary offset op x y)

/-- The value of a formula of integers, as if there were room for every integer. -/
def exactValue : Formula → Int
  | .int _ n => n
  | .unary _ .neg x => -x.exactValue
  | .binary _ op x y => exactResult op x.exactValue y.exactValue
  | _ => 0

/-- A formula and all formulas in it. -/
def parts : Formula → List Formula
  | .unary offset op x => .unary offset op x :: x.parts
  | .binary offset op x y => .binary offset op x y :: (x.parts ++ y.parts)
  | f => [f]

/-- Whether the exact values of the operands are in the domain of the operator in front. -/
def Defined : Formula → Prop
  | .binary _ op x y => InDomain op x.exactValue y.exactValue
  | _ => True

/-- All exact values on the way fit, and are in the domains of the operators. -/
def Folds (f : Formula) : Prop := ∀ part ∈ f.parts, fits64 part.exactValue = true ∧ part.Defined

instance (f : Formula) : Decidable f.Defined := by
  unfold Defined
  cases f <;> infer_instance

instance (f : Formula) : Decidable f.Folds :=
  inferInstanceAs (Decidable (∀ part ∈ f.parts, _))

section Folds

variable {offset : Nat} {x y : Formula}

theorem folds_int {n : Int} : Folds (.int offset n) ↔ fits64 n = true := by
  simp only [Folds, parts, List.forall_mem_singleton, exactValue, Defined, and_true]

theorem folds_negation : Folds (.unary offset .neg x) ↔
    fits64 (-x.exactValue) = true ∧ x.Folds := by
  simp [Folds, parts, exactValue, Defined]

theorem folds_operation {op : BinaryOp} : Folds (.binary offset op x y) ↔
    (fits64 (exactResult op x.exactValue y.exactValue) = true ∧
      InDomain op x.exactValue y.exactValue) ∧ x.Folds ∧ y.Folds := by
  simp only [Folds, parts, List.forall_mem_cons, List.forall_mem_append, exactValue, Defined]

theorem Folds.fits {f : Formula} (folds : f.Folds) : fits64 f.exactValue = true :=
  (folds f (by cases f <;> simp [parts])).1

end Folds

namespace Evaluator

/-! ## Operators on evaluated operands -/

/-- What an operator makes of the readings of its operands. -/
def combine (op : BinaryOp) (left right : Except FormulaError (Reading Value)) :
    Except FormulaError (Reading Value) := do
  let (a, names) ← left
  let (b, more) ← right
  return (← arithmetic op a b, names ++ more)

/-- No integer: a float, or no value at all. -/
def Escapes (result : Except FormulaError (Reading Value)) : Prop :=
  (∃ x, result = .ok (.float x, [])) ∨ ∃ error, result = .error error

section Operators

variable {op : BinaryOp} {left right : Except FormulaError (Reading Value)}

theorem arithmetic_ints (op : BinaryOp) (a b : Int) :
    arithmetic op (.int a) (.int b) = intBinary op a b := by
  cases op <;> rfl

/-- A float on either side makes the result a float. -/
theorem arithmetic_float_int (op : BinaryOp) (x : Float) (n : Int) :
    ∃ z, arithmetic op (.float x) (.int n) = .ok (.float z) := by
  cases op <;> exact ⟨_, rfl⟩

theorem arithmetic_int_float (op : BinaryOp) (n : Int) (y : Float) :
    ∃ z, arithmetic op (.int n) (.float y) = .ok (.float z) := by
  cases op <;> exact ⟨_, rfl⟩

theorem arithmetic_floats (op : BinaryOp) (x y : Float) :
    ∃ z, arithmetic op (.float x) (.float y) = .ok (.float z) := by
  cases op <;> exact ⟨_, rfl⟩

theorem combine_of_arithmetic {a b c : Value} (applied : arithmetic op a b = .ok c) :
    combine op (.ok (a, [])) (.ok (b, [])) = .ok (c, []) := by
  show (do return (← arithmetic op a b, []) : Except FormulaError (Reading Value)) = _
  rw [applied]
  rfl

theorem escapes_of_left (escapes : Escapes left)
    (known : (∃ n, right = .ok (.int n, [])) ∨ Escapes right) :
    Escapes (combine op left right) := by
  rcases escapes with ⟨x, rfl⟩ | ⟨error, rfl⟩
  · rcases known with ⟨n, rfl⟩ | ⟨y, rfl⟩ | ⟨error, rfl⟩
    · exact .inl ((arithmetic_float_int op x n).imp fun _ => combine_of_arithmetic)
    · exact .inl ((arithmetic_floats op x y).imp fun _ => combine_of_arithmetic)
    · exact .inr ⟨error, rfl⟩
  · exact .inr ⟨error, rfl⟩

theorem escapes_of_right (n : Int) (escapes : Escapes right) :
    Escapes (combine op (.ok (.int n, [])) right) := by
  rcases escapes with ⟨y, rfl⟩ | ⟨error, rfl⟩
  · exact .inl ((arithmetic_int_float op n y).imp fun _ => combine_of_arithmetic)
  · exact .inr ⟨error, rfl⟩

theorem combine_ints (known : op ∈ integerOps) {a b : Int} (fits : fits64 b = true)
    (exact' : fits64 (exactResult op a b) = true ∧ InDomain op a b) :
    combine op (.ok (.int a, [])) (.ok (.int b, [])) = .ok (.int (exactResult op a b), []) :=
  combine_of_arithmetic ((arithmetic_ints op a b).trans
    ((intBinary_eq_int_iff known fits).2 ⟨exact'.2, exact'.1, rfl⟩))

theorem escapes_of_ints (known : op ∈ integerOps) {a b : Int} (fits : fits64 b = true)
    (inexact : ¬(fits64 (exactResult op a b) = true ∧ InDomain op a b)) :
    Escapes (combine op (.ok (.int a, [])) (.ok (.int b, []))) := by
  rcases intBinary_cases op a b with ⟨n, integer⟩ | ⟨x, float⟩ | ⟨error, failed⟩
  · obtain ⟨domain, inside, _⟩ := (intBinary_eq_int_iff known fits).1 integer
    exact absurd ⟨inside, domain⟩ inexact
  · exact .inl ⟨x, combine_of_arithmetic ((arithmetic_ints op a b).trans float)⟩
  · refine .inr ⟨error, ?_⟩
    show (do return (← arithmetic op (.int a) (.int b), []) :
      Except FormulaError (Reading Value)) = _
    rw [arithmetic_ints, failed]
    rfl

end Operators

/-! ## Evaluation -/

section Evaluation

variable (e : Evaluator) (scope : Scope) {offset : Nat} {x y f : Formula}

theorem run_negation : e.run scope (.unary offset .neg x) = do
    let (v, names) ← e.run scope x
    return (← applyUnary .neg v, names) := by
  rw [run]

theorem run_operation {op : BinaryOp} (known : op ∈ integerOps) :
    e.run scope (.binary offset op x y) = combine op (e.run scope x) (e.run scope y) := by
  rw [combine]
  simp only [integerOps, List.mem_cons, List.not_mem_nil, or_false] at known
  rcases known with rfl | rfl | rfl | rfl | rfl <;> simp [run, applyBinary]

theorem run_negation_of_int {n : Int} (ran : e.run scope x = .ok (.int n, [])) :
    e.run scope (.unary offset .neg x) = match checked (-n) with
      | some m => .ok (.int m, [])
      | none => .ok (.float (-Float.ofInt n), []) := by
  rw [run_negation, ran]
  show (do return (← applyUnary .neg (.int n), []) : Except FormulaError (Reading Value)) = _
  rw [applyUnary]
  cases checked (-n) <;> rfl

/-- **A formula that folds is evaluated exactly, and one that does not gives no integer.** -/
theorem run_cases (whole : e.useFloat = false) (integers : f.OfIntegers) :
    f.Folds ∧ e.run scope f = .ok (.int f.exactValue, []) ∨
      ¬f.Folds ∧ Escapes (e.run scope f) := by
  induction integers with
  | literal fits => exact .inl ⟨folds_int.2 fits, by rw [run, whole]; rfl⟩
  | @negation offset x operand ih =>
      rw [folds_negation]
      rcases ih with ⟨folds, ran⟩ | ⟨stuck, escapes⟩
      · rw [run_negation_of_int e scope ran, checked]
        by_cases fits : fits64 (-x.exactValue) = true
        · rw [if_pos fits]
          exact .inl ⟨⟨fits, folds⟩, rfl⟩
        · rw [if_neg fits]
          exact .inr ⟨fun both => fits both.1, .inl ⟨_, rfl⟩⟩
      · refine .inr ⟨fun both => stuck both.2, ?_⟩
        rw [run_negation]
        rcases escapes with ⟨y, ran⟩ | ⟨error, ran⟩
        · exact .inl ⟨-y, by rw [ran]; rfl⟩
        · exact .inr ⟨error, by rw [ran]; rfl⟩
  | @operation offset op x y known left right ihLeft ihRight =>
      rw [folds_operation, run_operation e scope known]
      rcases ihLeft with ⟨foldsLeft, ranLeft⟩ | ⟨stuck, escapes⟩
      · rw [ranLeft]
        rcases ihRight with ⟨foldsRight, ranRight⟩ | ⟨stuck, escapes⟩
        · rw [ranRight]
          by_cases exact' : fits64 (exactResult op x.exactValue y.exactValue) = true ∧
              InDomain op x.exactValue y.exactValue
          · exact .inl ⟨⟨exact', foldsLeft, foldsRight⟩, combine_ints known foldsRight.fits exact'⟩
          · exact .inr ⟨fun all => exact' all.1, escapes_of_ints known foldsRight.fits exact'⟩
        · exact .inr ⟨fun all => stuck all.2.2, escapes_of_right _ escapes⟩
      · refine .inr ⟨fun all => stuck all.2.1, escapes_of_left escapes ?_⟩
        exact ihRight.imp (fun right => ⟨_, right.2⟩) And.right

/-- **Integers are folded exactly, or not at all.**  A formula of integers is evaluated to an
integer exactly if all exact values in it fit 64 bits and all operands are in the domain of their
operator; and the integer is the exact value. -/
theorem integer_iff_folds (whole : e.useFloat = false) (integers : f.OfIntegers) (n : Int)
    (names : List String) : e.evaluateFormula f scope = .ok ⟨.int n, names⟩ ↔
      f.Folds ∧ n = f.exactValue ∧ names = [] := by
  rw [evaluateFormula]
  rcases run_cases e scope whole integers with ⟨folds, ran⟩ | ⟨stuck, ⟨x, ran⟩ | ⟨error, ran⟩⟩
  · rw [ran]
    show Except.ok (⟨.int f.exactValue, []⟩ : Evaluation) = _ ↔ _
    simp only [folds, Except.ok.injEq, Evaluation.mk.injEq, Value.int.injEq, true_and, eq_comm]
  · rw [ran]
    show Except.ok (⟨.float x, []⟩ : Evaluation) = _ ↔ _
    simp [stuck]
  · rw [ran]
    simp [stuck, bind, Except.bind]

end Evaluation

/-- `(-9223372036854775807 - 1) % (-3) ** 3` -/
def leastRemainder : Formula :=
  .binary 27 .rem
    (.binary 22 .sub (.unary 1 .neg (.int 2 9223372036854775807)) (.int 24 1))
    (.binary 34 .pow (.unary 30 .neg (.int 31 3)) (.int 37 3))

/-- The least integer of 64 bits, and a divisor that is negative. -/
theorem integer_iff_folds_leastRemainder :
    default.useFloat = false ∧ leastRemainder.OfIntegers ∧ leastRemainder.Folds ∧
      default.evaluateFormula leastRemainder Scope.empty = .ok ⟨.int (-26), []⟩ := by
  have integers : leastRemainder.OfIntegers :=
    .operation (by decide)
      (.operation (by decide) (.negation (.literal (by decide))) (.literal (by decide)))
      (.operation (by decide) (.negation (.literal (by decide))) (.literal (by decide)))
  have folds : leastRemainder.Folds := by decide +kernel
  have value : -26 = leastRemainder.exactValue := by decide +kernel
  exact ⟨rfl, integers, folds,
    (integer_iff_folds default Scope.empty rfl integers (-26) []).2 ⟨folds, value, rfl⟩⟩

end Evaluator

end Formula

end PulseSequencer
