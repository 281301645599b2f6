import PulseSequencer.Proofs.Units.Factors

/-
# PulseSequencer.Proofs.Units.Compositions -- symbols of composed units

Symbols are joined without brackets.  A composition writes its factors one behind the other
(`Composition.written`), and its symbol is read as what these multiply to
(`dimension_of_symbol`).  That is the dimension of the unit as long as a divisor has no more
than its first factor to invert and a power no more than the last one to raise
(`Composition.Aligned`), and the text can be read at all: `readsBack_iff`.
-/

namespace PulseSequencer

set_option autoImplicit false

namespace PhysicalUnit

/-! ## Results of arithmetic -/

section Arithmetic

variable {a b unit : PhysicalUnit} {n : Int}

theorem of_mul (made : a.mul b = .ok unit) : unit.symbol = joinSymbols a.symbol "*" b.symbol ∧
    ∀ i, (unit.dimension.exponent i).toInt =
      (a.dimension.exponent i).toInt + (b.dimension.exponent i).toInt := by
  obtain ⟨_, fits, result⟩ := bind_eq_ok.1 made
  rw [← Except.ok.inj result]
  exact ⟨rfl, Dimension.ofExponents_eq_ok_iff.1 (ok_of_mapError fits)⟩

theorem of_div (made : a.div b = .ok unit) :
    (unit.symbol = if a.symbol = "" ∧ b.symbol ≠ "" then "1/" ++ b.symbol
      else joinSymbols a.symbol "/" b.symbol) ∧
    ∀ i, (unit.dimension.exponent i).toInt =
      (a.dimension.exponent i).toInt - (b.dimension.exponent i).toInt := by
  obtain ⟨_, fits, result⟩ := bind_eq_ok.1 made
  rw [← Except.ok.inj result]
  exact ⟨rfl, Dimension.ofExponents_eq_ok_iff.1 (ok_of_mapError fits)⟩

theorem of_pow (made : a.pow n = .ok unit) :
    (unit.symbol = if a.symbol = "" ∨ n = 1 then a.symbol else a.symbol ++ "^" ++ toString n) ∧
    a.dimension.pow n = .ok unit.dimension := by
  obtain ⟨_, fits, result⟩ := bind_eq_ok.1 made
  rw [← Except.ok.inj result]
  exact ⟨rfl, ok_of_mapError fits⟩

end Arithmetic

/-! ## Compositions -/

/-- Units that are read, multiplied, divided and raised to powers. -/
inductive Composition where
  | read (text : String)
  | product (a b : Composition)
  | quotient (a b : Composition)
  | power (a : Composition) (n : Int64)

namespace Composition

def unit : Composition → Except UnitError PhysicalUnit
  | read text => parse text
  | product a b => do (← a.unit).mul (← b.unit)
  | quotient a b => do (← a.unit).div (← b.unit)
  | power a n => do (← a.unit).pow n.toInt

/-- A composition and all that it is made of. -/
def parts : Composition → List Composition
  | read text => [read text]
  | product a b => product a b :: (a.parts ++ b.parts)
  | quotient a b => quotient a b :: (a.parts ++ b.parts)
  | power a n => power a n :: a.parts

/-- The factors that stand in the symbol of a composition, one behind the other. -/
def written : Composition → List Factor
  | read text => factorsOf (Text.trim text.toList)
  | product a b => a.written ++ b.written
  | quotient a b =>
      if a.written = [] ∧ b.written ≠ [] then (false, ['1']) :: inverted b.written
      else a.written ++ inverted b.written
  | power a n =>
      if n.toInt = 1 then a.written
      else extendLast ('^' :: (toString n.toInt).toList) a.written

/-- Whether the factors in front of one that is divided by or raised, or behind it, change
nothing: those behind the first factor of a divisor cancel, and those in front of the last
factor of a power have a dimension that stays as it is. -/
def Aligned : Composition → Prop
  | read _ | product _ _ => True
  | quotient _ b => total? b.written = total? (b.written.take 1)
  | power a n => ∃ d, total? a.written.dropLast = some d ∧ d.pow n.toInt = .ok d

/-- Whether the symbol can be read at all. -/
def Readable (c : Composition) : Prop := ∃ d, total? c.written = some d

/-- Whether the symbol is read as a unit of the same dimension. -/
def ReadsBack (c : Composition) : Prop :=
  ∃ u v, c.unit = .ok u ∧ parse u.symbol = .ok v ∧ v.dimension = u.dimension

end Composition

/-! ## Symbols -/

section Symbols

variable {c : Composition} {u : PhysicalUnit}

theorem toList_joinSymbols (a operator b : String) : (joinSymbols a operator b).toList =
    if a = "" then b.toList else if b = "" then a.toList
    else a.toList ++ (operator.toList ++ b.toList) := by
  unfold joinSymbols
  split
  · rfl
  · split
    · rfl
    · simp

theorem number_free : ∀ n < 0x80, Number.isNumberChar (Char.ofNat n) = true →
    Text.isBlank (Char.ofNat n) = false ∧ ¬(Char.ofNat n = '*' ∨ Char.ofNat n = '/') := by
  decide

/-- The characters of an exponent are no blanks and no marks. -/
theorem exponent_free (n : Int) :
    ∀ c ∈ (toString n).toList, Text.isBlank c = false ∧ ¬(c = '*' ∨ c = '/') := fun c there =>
  Number.of_isNumberChar (p := fun c => Text.isBlank c = false ∧ ¬(c = '*' ∨ c = '/')) number_free
    ((Number.signedNumeral_of_int n).isNumberChar c there)

/-- **The symbol of a composition is what it has written.** -/
theorem symbol_of_unit (made : c.unit = .ok u) :
    Edged u.symbol.toList ∧ factorsOf u.symbol.toList = c.written := by
  induction c generalizing u with
  | read text =>
      have total := dimension_parse text
      have symbol := symbol_of_parse (show parse text = .ok u from made)
      rw [show parse text = .ok u from made] at total
      rw [symbol, String.toList_ofList]
      exact ⟨edged_of_total (Text.trimmed_trim _) total.symm, rfl⟩
  | product a b iha ihb =>
      obtain ⟨ua, first, made⟩ := bind_eq_ok.1 made
      obtain ⟨ub, second, made⟩ := bind_eq_ok.1 made
      obtain ⟨left, onLeft⟩ := iha first
      obtain ⟨right, onRight⟩ := ihb second
      rw [(of_mul made).1, toList_joinSymbols, Composition.written, ← onLeft, ← onRight]
      simp only [← String.toList_eq_nil_iff]
      split
      · rename_i none'
        rw [none']
        exact ⟨right, rfl⟩
      · rename_i leftSome
        split
        · rename_i none'
          rw [none']
          exact ⟨left, (List.append_nil _).symm⟩
        · rename_i rightSome
          exact ⟨left.append right ['*'] leftSome rightSome,
            factorsOf_product left right leftSome rightSome⟩
  | quotient a b iha ihb =>
      obtain ⟨ua, first, made⟩ := bind_eq_ok.1 made
      obtain ⟨ub, second, made⟩ := bind_eq_ok.1 made
      obtain ⟨left, onLeft⟩ := iha first
      obtain ⟨right, onRight⟩ := ihb second
      rw [(of_div made).1, Composition.written, ← onLeft, ← onRight]
      simp only [ne_eq, factorsOf_eq_nil_iff, ← String.toList_eq_nil_iff]
      split
      · rename_i alone
        have one : Edged ['1'] := edged_of_free (List.forall_mem_singleton.2 (by decide))
        have factors := factorsOf_quotient (a := ['1']) (by simp) alone.2
        rw [String.toList_append]
        exact ⟨one.append right ['/'] (by simp) alone.2, factors⟩
      · rename_i joined
        rw [toList_joinSymbols]
        simp only [← String.toList_eq_nil_iff]
        split
        · rename_i none'
          have none'' : ub.symbol.toList = [] :=
            Decidable.not_not.1 fun some' => joined ⟨none', some'⟩
          rw [none', none'']
          exact ⟨none'' ▸ right, rfl⟩
        · rename_i leftSome
          split
          · rename_i none'
            rw [none']
            exact ⟨left, (List.append_nil _).symm⟩
          · rename_i rightSome
            exact ⟨left.append right ['/'] leftSome rightSome,
              factorsOf_quotient leftSome rightSome⟩
  | power a n ih =>
      obtain ⟨ua, first, made⟩ := bind_eq_ok.1 made
      obtain ⟨base, onBase⟩ := ih first
      rw [(of_pow made).1, Composition.written, ← onBase]
      simp only [← String.toList_eq_nil_iff]
      by_cases one : n.toInt = 1
      · rw [if_pos (.inr one), if_pos one]
        exact ⟨base, rfl⟩
      · rw [if_neg one]
        by_cases none' : ua.symbol.toList = []
        · rw [if_pos (.inl none'), none']
          exact ⟨none' ▸ base, rfl⟩
        · rw [if_neg (not_or.2 ⟨none', one⟩), String.toList_append, String.toList_append,
            List.append_assoc]
          have free := exponent_free n.toInt
          have exponent : Edged (toString n.toInt).toList :=
            edged_of_free fun c there => ⟨(free c there).1, fun star => (free c there).2 (.inl star)⟩
          exact ⟨base.append exponent ['^'] none' (Number.signedNumeral_of_int n.toInt).ne_nil,
            factorsOf_power none' free⟩

/-- **A composed symbol is read as the product of what was written.** -/
theorem dimension_of_symbol (made : c.unit = .ok u) :
    (parse u.symbol).toOption.map dimension = total? c.written := by
  obtain ⟨edged, factors⟩ := symbol_of_unit made
  rw [dimension_parse, edged.toTrimmed.trim_eq, factors]

theorem readsBack_of_unit (made : c.unit = .ok u) :
    c.ReadsBack ↔ total? c.written = some u.dimension := by
  rw [← dimension_of_symbol made, Composition.ReadsBack, made]
  constructor
  · rintro ⟨_, v, same, read, dimension⟩
    obtain rfl := Except.ok.inj same
    rw [read, ← dimension]
    rfl
  · intro read
    obtain ⟨v, found, dimension⟩ := Option.map_eq_some_iff.1 read
    exact ⟨u, v, rfl, ok_of_toOption found, dimension⟩

end Symbols

/-! ## Sums of exponents -/

/-- The exponents that factors add in all. -/
def sum? : List Factor → Option (BaseDimension → Int)
  | [] => some fun _ => 0
  | factor :: rest => do
      let f ← exponents? factor
      let g ← sum? rest
      return fun b => f b + g b

section Sums

variable {d e : Dimension} {fs : List Factor}

/-- **What factors add does not depend on the dimension in front of them.** -/
theorem sum?_of_foldlM (read : fs.foldlM multiply? d = some e) :
    ∃ f, sum? fs = some f ∧ ∀ b, (e.exponent b).toInt = (d.exponent b).toInt + f b := by
  induction fs generalizing d with
  | nil =>
      obtain rfl := Option.some.inj read
      exact ⟨_, rfl, fun _ => (Int.add_zero _).symm⟩
  | cons factor rest ih =>
      rw [List.foldlM_cons] at read
      obtain ⟨next, first, onward⟩ := Option.bind_eq_some_iff.1 read
      obtain ⟨f, adds, here⟩ := multiply?_eq_some_iff.1 first
      obtain ⟨g, sum, others⟩ := ih onward
      refine ⟨fun b => f b + g b, by rw [sum?, adds, sum]; rfl, fun b => ?_⟩
      rw [others, here, Int.add_assoc]

theorem sum?_of_total (read : total? fs = some d) :
    sum? fs = some fun b => (d.exponent b).toInt := by
  obtain ⟨f, sum, same⟩ := sum?_of_foldlM read
  rw [sum]
  refine congrArg some (funext fun b => ?_)
  rw [same, Dimension.toInt_none, Int.zero_add]

theorem total?_append (fs gs : List Factor) :
    total? (fs ++ gs) = (total? fs).bind fun d => gs.foldlM multiply? d := by
  rw [total?, List.foldlM_append]
  rfl

/-- **Behind a slash factors are divided by as a whole exactly if all but the first cancel.** -/
theorem inverted_iff {front divisor : List Factor} {da db : Dimension}
    (dividend : total? front = some da) (divides : total? divisor = some db)
    (shape : divisor = [] ∨ ∃ term rest, divisor = (false, term) :: rest)
    (read : total? (front ++ inverted divisor) = some e) :
    (∀ b, (e.exponent b).toInt = (da.exponent b).toInt - (db.exponent b).toInt) ↔
      total? divisor = total? (divisor.take 1) := by
  rw [total?_append, dividend, Option.bind_some] at read
  obtain rfl | ⟨term, rest, rfl⟩ := shape
  · obtain rfl := Option.some.inj divides
    obtain rfl := Option.some.inj read
    simp [Dimension.toInt_none]
  · rw [total?, List.foldlM_cons] at divides
    obtain ⟨first, step, onward⟩ := Option.bind_eq_some_iff.1 divides
    obtain ⟨f, adds, isFirst⟩ := multiply?_eq_some_iff.1 step
    obtain ⟨g, others, isAll⟩ := sum?_of_foldlM onward
    obtain ⟨h, sum, isQuotient⟩ := sum?_of_foldlM read
    have one : total? [(false, term)] = some first := by
      rw [total?, List.foldlM_cons, step]
      rfl
    have all : total? ((false, term) :: rest) = some db := by
      rw [total?, List.foldlM_cons, step]
      exact onward
    have taken : ∀ b, h b = -f b + g b := by
      rw [inverted, sum?, exponents?_true, adds, others] at sum
      split at sum
      · cases sum
      · exact fun b => congrFun (Option.some.inj sum).symm b
    have cancel : (∀ b, (e.exponent b).toInt = (da.exponent b).toInt - (db.exponent b).toInt) ↔
        ∀ b, (db.exponent b).toInt = (first.exponent b).toInt := by
      refine forall_congr' fun b => ?_
      rw [isQuotient, isAll, isFirst, taken, Dimension.toInt_none]
      omega
    rw [List.take_succ_cons, List.take_zero, one, all, Option.some.injEq, cancel]
    exact ⟨Dimension.eq_of_toInt, fun same b => by rw [same]⟩

/-- **A power that is written behind a factor raises it**, if it can be read there. -/
theorem exponents?_power {divides : Bool} {term : List Char} {n : Int} {g : BaseDimension → Int}
    (low : -pow2 63 ≤ n) (high : n < pow2 63)
    (read : exponents? (divides, term ++ '^' :: (toString n).toList) = some g) :
    ∃ f, exponents? (divides, term) = some f ∧ ∀ b, (pow2 64 : Int) ∣ f b * n - g b := by
  have free : '^' ∉ term := fun there =>
    absurd ((exponents?_of_carets (.inr there)).symm.trans read) (Option.some_ne_none _).symm
  have noCaret : ∀ c ∈ term, decide (c = '^') = false := fun c there =>
    decide_eq_false fun same => free (same ▸ there)
  have power : power? (term ++ '^' :: (toString n).toList) = some (term, n) := by
    rw [power?, Text.splitFirst?_append noCaret rfl]
    exact congrArg (Option.map _) (Number.readInt64?_toString low high)
  rw [exponents?, if_neg, power] at read
  · dsimp only [Option.bind_eq_bind, Option.bind_some] at read
    obtain ⟨unit, simple, read⟩ := Option.bind_eq_some_iff.1 read
    obtain ⟨d, raised, read⟩ := Option.bind_eq_some_iff.1 read
    have multiple := Dimension.pow_eq_ok_iff.1 (ok_of_toOption raised)
    obtain rfl := Option.some.inj read
    refine ⟨_, exponents?_of_simple? simple divides, fun b => ?_⟩
    cases divides with
    | false => exact multiple b
    | true =>
        have negated : -(unit.dimension.exponent b).toInt * n - -(d.exponent b).toInt =
            -((unit.dimension.exponent b).toInt * n - (d.exponent b).toInt) := by
          rw [Int.neg_mul]
          omega
        exact negated ▸ Int.dvd_neg.2 (multiple b)
  · rintro ⟨one, _⟩
    have there : '^' ∈ term ++ '^' :: (toString n).toList := by simp
    rw [one] at there
    exact absurd there (by decide)

/-- **A whole product is raised by its last factor exactly if what stands in front of it has a
dimension that the power leaves.** -/
theorem raised_iff {init : List Factor} {divides : Bool} {term : List Char} {n : Int}
    {base power : Dimension} (low : -pow2 63 ≤ n) (high : n < pow2 63)
    (whole : total? (init ++ [(divides, term)]) = some base) (raised : base.pow n = .ok power)
    (read : total? (init ++ [(divides, term ++ '^' :: (toString n).toList)]) = some e) :
    e = power ↔ ∃ d, total? init = some d ∧ d.pow n = .ok d := by
  rw [total?_concat] at whole read
  obtain ⟨d, front, last⟩ := Option.bind_eq_some_iff.1 whole
  obtain ⟨d', front', last'⟩ := Option.bind_eq_some_iff.1 read
  obtain rfl := Option.some.inj (front.symm.trans front')
  obtain ⟨g, adds', isRead⟩ := multiply?_eq_some_iff.1 last'
  obtain ⟨f', adds, isBase⟩ := multiply?_eq_some_iff.1 last
  obtain ⟨f, same, multiple⟩ := exponents?_power low high adds'
  obtain rfl := Option.some.inj (same.symm.trans adds)
  have unchanged : e = power ↔ d.pow n = .ok d := by
    have isPower : e = power ↔ base.pow n = .ok e := by
      rw [raised, Except.ok.injEq, eq_comm]
    rw [isPower, Dimension.pow_eq_ok_iff, Dimension.pow_eq_ok_iff]
    refine forall_congr' fun b => ?_
    have parts : (base.exponent b).toInt * n - (e.exponent b).toInt =
        (d.exponent b).toInt * n - (d.exponent b).toInt + (f b * n - g b) := by
      rw [isBase, isRead, Int.add_mul]
      omega
    rw [parts, Int.dvd_add_left (multiple b)]
  rw [unchanged, front]
  simp

theorem total?_dropLast (read : total? fs = some d) : ∃ e, total? fs.dropLast = some e := by
  rcases List.eq_nil_or_concat fs with rfl | ⟨init, last, rfl⟩
  · exact ⟨d, read⟩
  · rw [List.concat_eq_append] at read ⊢
    rw [total?_concat] at read
    obtain ⟨e, front, _⟩ := Option.bind_eq_some_iff.1 read
    exact ⟨e, by rw [List.dropLast_concat, front]⟩

end Sums

/-! ## Steps of compositions -/

section Steps

variable {a b : Composition} {ua ub u : PhysicalUnit}

open PhysicalUnit.Composition

/-- **A product reads back if it can be read.** -/
theorem readsBack_product (first : a.unit = .ok ua) (second : b.unit = .ok ub)
    (made : (product a b).unit = .ok u) (left : a.ReadsBack) (right : b.ReadsBack) :
    (product a b).ReadsBack ↔ (product a b).Readable := by
  rw [readsBack_of_unit first] at left
  rw [readsBack_of_unit second] at right
  rw [readsBack_of_unit made]
  refine ⟨fun read => ⟨_, read⟩, ?_⟩
  rintro ⟨e, read⟩
  rw [read]
  rw [written, total?_append, left, Option.bind_some] at read
  obtain ⟨f, sum, same⟩ := sum?_of_foldlM read
  obtain rfl := Option.some.inj ((sum?_of_total right).symm.trans sum)
  have made' : ua.mul ub = .ok u := by
    rw [Composition.unit, first, second] at made
    exact made
  exact congrArg some (Dimension.eq_of_toInt fun i => by rw [same, (of_mul made').2])

theorem written_shape (made : a.unit = .ok u) :
    a.written = [] ∨ ∃ term rest, a.written = (false, term) :: rest := by
  rw [← (symbol_of_unit made).2, factorsOf]
  split
  · exact .inl rfl
  · obtain ⟨term, rest, shape⟩ := exists_factors [] (Text.withoutBlanks (caretPowers u.symbol.toList))
    exact .inr ⟨_, _, shape false⟩

/-- What stands in front of the divisor has the dimension of the dividend. -/
theorem exists_dividend {d : Dimension} (left : total? a.written = some d) : ∃ front,
    (quotient a b).written = front ++ inverted b.written ∧ total? front = some d := by
  rw [written]
  split
  · rename_i alone
    rw [alone.1] at left
    exact ⟨[(false, ['1'])], rfl, left⟩
  · exact ⟨a.written, rfl, left⟩

/-- **A quotient reads back if it can be read and the divisor has one factor**, but for
others that cancel. -/
theorem readsBack_quotient (first : a.unit = .ok ua) (second : b.unit = .ok ub)
    (made : (quotient a b).unit = .ok u) (left : a.ReadsBack) (right : b.ReadsBack) :
    (quotient a b).ReadsBack ↔ (quotient a b).Readable ∧ (quotient a b).Aligned := by
  rw [readsBack_of_unit first] at left
  rw [readsBack_of_unit second] at right
  rw [readsBack_of_unit made]
  have made' : ua.div ub = .ok u := by
    rw [Composition.unit, first, second] at made
    exact made
  obtain ⟨front, shape, dividend⟩ := exists_dividend (b := b) left
  rw [Readable, shape]
  constructor
  · intro read
    exact ⟨⟨_, read⟩, (inverted_iff dividend right (written_shape second) read).1 (of_div made').2⟩
  · rintro ⟨⟨e, read⟩, aligned⟩
    have whole := (inverted_iff dividend right (written_shape second) read).2 aligned
    rw [read]
    exact congrArg some (Dimension.eq_of_toInt fun b => (whole b).trans ((of_div made').2 b).symm)

/-- **A power reads back if it can be read and raises one factor**, but for others that it
leaves as they are. -/
theorem readsBack_power {n : Int64} (first : a.unit = .ok ua) (made : (power a n).unit = .ok u)
    (base : a.ReadsBack) :
    (power a n).ReadsBack ↔ (power a n).Readable ∧ (power a n).Aligned := by
  rw [readsBack_of_unit first] at base
  rw [readsBack_of_unit made]
  have made' : ua.pow n.toInt = .ok u := by
    rw [Composition.unit, first] at made
    exact made
  have raised := (of_pow made').2
  have low : -pow2 63 ≤ n.toInt := Int64.le_toInt n
  have high : n.toInt < pow2 63 := Int64.toInt_lt n
  rw [Readable, Aligned, written]
  by_cases one : n.toInt = 1
  · rw [one] at raised
    have same := Except.ok.inj ((Dimension.pow_one _).symm.trans raised)
    rw [if_pos one, ← same, one]
    obtain ⟨d, front⟩ := total?_dropLast base
    exact ⟨fun read => ⟨⟨_, read⟩, d, front, d.pow_one⟩, fun _ => base⟩
  · rw [if_neg one]
    rcases List.eq_nil_or_concat a.written with none' | ⟨init, ⟨divides, term⟩, shape⟩
    · rw [none'] at base ⊢
      have plain : Dimension.none = ua.dimension := Option.some.inj base
      have still := Dimension.pow_none n.toInt
      rw [← plain] at raised
      have same := Except.ok.inj (still.symm.trans raised)
      rw [← same]
      exact ⟨fun read => ⟨⟨_, read⟩, _, rfl, still⟩, fun _ => rfl⟩
    · rw [List.concat_eq_append] at shape
      rw [shape] at base ⊢
      rw [extendLast_concat, List.dropLast_concat]
      constructor
      · intro read
        exact ⟨⟨_, read⟩, (raised_iff low high base raised read).1 rfl⟩
      · rintro ⟨⟨e, read⟩, aligned⟩
        rw [read, (raised_iff low high base raised read).2 aligned]

end Steps

/-! ## Whole compositions -/

namespace Composition

theorem mem_parts (c : Composition) : c ∈ c.parts := by
  cases c <;> exact List.mem_cons_self ..

/-- What is made of parts that read back does so exactly if it is aligned and can be read. -/
theorem readsBack_parts_iff {c : Composition} {u : PhysicalUnit} (made : c.unit = .ok u) :
    (∀ part ∈ c.parts, part.ReadsBack) ↔ ∀ part ∈ c.parts, part.Readable ∧ part.Aligned := by
  induction c generalizing u with
  | read text =>
      have readable := dimension_parse text
      rw [show parse text = .ok u from made] at readable
      have back : (read text).ReadsBack := (readsBack_of_unit made).2 readable.symm
      simp only [parts, List.forall_mem_singleton]
      exact ⟨fun _ => ⟨⟨_, readable.symm⟩, trivial⟩, fun _ => back⟩
  | product a b iha ihb =>
      obtain ⟨ua, first, onward⟩ := bind_eq_ok.1 made
      obtain ⟨ub, second, _⟩ := bind_eq_ok.1 onward
      simp only [parts, List.forall_mem_cons, List.forall_mem_append, ← iha first, ← ihb second]
      refine and_congr_left fun ⟨left, right⟩ => ?_
      rw [readsBack_product first second made (left a a.mem_parts) (right b b.mem_parts)]
      exact (and_iff_left trivial).symm
  | quotient a b iha ihb =>
      obtain ⟨ua, first, onward⟩ := bind_eq_ok.1 made
      obtain ⟨ub, second, _⟩ := bind_eq_ok.1 onward
      simp only [parts, List.forall_mem_cons, List.forall_mem_append, ← iha first, ← ihb second]
      exact and_congr_left fun ⟨left, right⟩ =>
        readsBack_quotient first second made (left a a.mem_parts) (right b b.mem_parts)
  | power a n ih =>
      obtain ⟨ua, first, _⟩ := bind_eq_ok.1 made
      simp only [parts, List.forall_mem_cons, ← ih first]
      exact and_congr_left fun base => readsBack_power first made (base a a.mem_parts)

/-- **When symbols read back.**  The symbol of a composed unit is read as a unit of the same
dimension exactly if the factors that were written multiply to it from left to right.  It and
the symbols of all units that it is composed of read back exactly if each can be read, no
divisor has factors behind its first one that do not cancel, and no power has a dimension in
front of its last factor that it changes. -/
theorem readsBack_iff {c : Composition} {u : PhysicalUnit} (made : c.unit = .ok u) :
    (c.ReadsBack ↔ total? c.written = some u.dimension) ∧
      ((∀ part ∈ c.parts, part.ReadsBack) ↔ ∀ part ∈ c.parts, part.Readable ∧ part.Aligned) :=
  ⟨readsBack_of_unit made, readsBack_parts_iff made⟩

/-- A divisor with one factor, and a power of one. -/
def voltageRate : Composition :=
  product (quotient (read " MHz") (read "V ** 2")) (power (read "s") (-3))

theorem readsBack_iff_voltageRate : ∃ u, voltageRate.unit = .ok u ∧
    u.symbol = "MHz/V ** 2*s^-3" ∧ u.dimension = { time := -4, voltage := -2 } ∧
      (voltageRate.ReadsBack ↔ total? voltageRate.written = some u.dimension) ∧
      ((∀ part ∈ voltageRate.parts, part.ReadsBack) ↔
        ∀ part ∈ voltageRate.parts, part.Readable ∧ part.Aligned) := by
  have observed : voltageRate.unit.toOption.map (fun u => (u.symbol, u.dimension)) =
      some ("MHz/V ** 2*s^-3", { time := -4, voltage := -2 }) := by
    decide
  obtain ⟨u, found, same⟩ := Option.map_eq_some_iff.1 observed
  obtain ⟨symbol, dimension⟩ := Prod.mk.inj same
  have made := ok_of_toOption found
  exact ⟨u, made, symbol, dimension, readsBack_iff made⟩

/-- The square of a rate is written as the rate of a square, and the quotient by an inverse
cannot be read. -/
theorem not_readsBack_squareRate :
    (∃ u v, (power (read "V/s") 2).unit = .ok u ∧ u.symbol = "V/s^2" ∧
      u.dimension = { time := -2, voltage := 2 } ∧ parse u.symbol = .ok v ∧
        v.dimension = { time := -2, voltage := 1 }) ∧
    ∃ u, (quotient (read "V") (read "1/s")).unit = .ok u ∧ u.symbol = "V/1/s" ∧
      ¬∃ v, parse u.symbol = .ok v := by
  have square : (power (read "V/s") 2).unit.toOption.map (fun u => (u.symbol, u.dimension)) =
      some ("V/s^2", { time := -2, voltage := 2 }) := by
    decide
  have squareRead : (parse "V/s^2").toOption.map dimension =
      some { time := -2, voltage := 1 } := by
    decide
  have inverse : (quotient (read "V") (read "1/s")).unit.toOption.map symbol = some "V/1/s" := by
    decide
  have inverseRead : (parse "V/1/s").isOk = false := by decide
  obtain ⟨u, found, same⟩ := Option.map_eq_some_iff.1 square
  obtain ⟨written, dimension⟩ := Prod.mk.inj same
  obtain ⟨v, read, readDimension⟩ := Option.map_eq_some_iff.1 squareRead
  obtain ⟨w, made, symbol⟩ := Option.map_eq_some_iff.1 inverse
  refine ⟨⟨u, v, ok_of_toOption found, written, dimension, ?_, readDimension⟩, w,
    ok_of_toOption made, symbol, ?_⟩
  · exact written ▸ ok_of_toOption read
  · rintro ⟨x, ok⟩
    rw [symbol] at ok
    rw [ok] at inverseRead
    cases inverseRead

end Composition

end PhysicalUnit

end PulseSequencer
