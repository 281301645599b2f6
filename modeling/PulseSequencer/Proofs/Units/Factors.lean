import PulseSequencer.Proofs.Number.Digits
import PulseSequencer.Proofs.Units.Symbols

/-
# PulseSequencer.Proofs.Units.Factors -- the factors of a symbol and what they multiply to

A symbol is read as its factors from left to right.  Each adds exponents of its own
(`exponents?`), and the dimension of the unit is their sum, as long as it fits behind each
of them (`total?`): `dimension_parse`.  The factors of joined symbols are those of both
(`factorsOf_product`, `factorsOf_quotient`), and an exponent belongs to the last of them
(`factorsOf_power`).
-/

namespace PulseSequencer

set_option autoImplicit false

namespace Dimension

theorem fits_iff {n : Int} : fits n = true ↔ -128 ≤ n ∧ n ≤ 127 := by
  rw [fits, Bool.and_eq_true, decide_eq_true_eq, decide_eq_true_eq]

theorem fits_exponent (d : Dimension) (b : BaseDimension) :
    fits (d.exponent b).toInt = true :=
  fits_iff.2 ⟨Int8.le_toInt _, Int.le_of_lt_add_one (Int8.toInt_lt _)⟩

theorem eq_of_toInt {d e : Dimension}
    (same : ∀ b, (d.exponent b).toInt = (e.exponent b).toInt) : d = e :=
  ext_exponent fun b => Int8.toInt_inj.1 (same b)

/-- **Exponents make a dimension exactly if they are those of one.** -/
theorem ofExponents_eq_ok_iff {f : BaseDimension → Int} {d : Dimension} :
    ofExponents f = .ok d ↔ ∀ b, (d.exponent b).toInt = f b := by
  have cast : ∀ {n : Int}, fits n = true → (Int8.ofInt n).toInt = n := fun inside =>
    Int8.toInt_ofInt_of_le (fits_iff.1 inside).1 (Int.lt_add_one_of_le (fits_iff.1 inside).2)
  unfold ofExponents
  constructor
  · intro made b
    split at made
    · cases made
    · rename_i none'
      rw [← Except.ok.inj made, exponent_ofFn]
      exact cast (by simpa using List.find?_eq_none.1 none' b b.mem_all)
  · intro same
    have none' : (BaseDimension.all.find? fun b => !fits (f b)) = Option.none :=
      List.find?_eq_none.2 fun b _ => by rw [← same b, fits_exponent]; exact Bool.false_ne_true
    rw [none']
    refine congrArg Except.ok (ext_exponent fun b => ?_)
    rw [exponent_ofFn, ← same b, Int8.ofInt_toInt]

theorem toInt_none (b : BaseDimension) : (Dimension.none.exponent b).toInt = 0 := by
  cases b <;> rfl

/-- Exponents stay as they are in 64 bits. -/
theorem bmod_of_fits {n : Int} (inside : fits n = true) : n.bmod (pow2 64) = n := by
  obtain ⟨low, high⟩ := fits_iff.1 inside
  refine Int.bmod_eq_of_le ?_ ?_ <;> rw [show pow2 64 = 18446744073709551616 from rfl] <;> omega

/-- A power is made of the exponents that are products up to multiples of `2^64`. -/
theorem pow_eq_ok_iff {d e : Dimension} {n : Int} : d.pow n = .ok e ↔
    ∀ b, (pow2 64 : Int) ∣ (d.exponent b).toInt * n - (e.exponent b).toInt := by
  rw [pow, ofExponents_eq_ok_iff]
  refine forall_congr' fun b => ?_
  rw [Int.dvd_iff_bmod_eq_zero, ← Int.bmod_eq_bmod_iff_bmod_sub_eq_zero,
    bmod_of_fits (e.fits_exponent b), eq_comm]

theorem pow_none (n : Int) : none.pow n = .ok none :=
  pow_eq_ok_iff.2 fun b => by rw [toInt_none, Int.zero_mul]; exact Int.dvd_zero _

theorem pow_one (d : Dimension) : d.pow 1 = .ok d :=
  pow_eq_ok_iff.2 fun b => by rw [Int.mul_one, Int.sub_self]; exact Int.dvd_zero _

end Dimension

namespace PhysicalUnit

/-! ## Factors -/

/-- A factor of a symbol, with whether it divides. -/
abbrev Factor := Bool × List Char

/-- The exponents that a factor adds, if it can be read. -/
def exponents? : Factor → Option (BaseDimension → Int)
  | (divides, term) =>
      if term = ['1'] ∧ divides = false then some fun _ => 0
      else do
        let (base, exponent) ← power? term
        let unit ← simple? base
        let d ← (unit.dimension.pow exponent).toOption
        return fun b => if divides then -(d.exponent b).toInt else (d.exponent b).toInt

/-- The dimension behind one factor more, if its exponents fit. -/
def multiply? (d : Dimension) (factor : Factor) : Option Dimension := do
  let f ← exponents? factor
  (Dimension.ofExponents fun b => (d.exponent b).toInt + f b).toOption

/-- **The dimension that factors multiply to**, from left to right. -/
def total? (fs : List Factor) : Option Dimension := fs.foldlM multiply? .none

section Totals

variable {d e : Dimension} {factor : Factor} {fs gs : List Factor}

theorem multiply?_eq_some_iff : multiply? d factor = some e ↔
    ∃ f, exponents? factor = some f ∧ ∀ b, (e.exponent b).toInt = (d.exponent b).toInt + f b := by
  have ok : ∀ {f : BaseDimension → Int}, (Dimension.ofExponents f).toOption = some e ↔
      ∀ b, (e.exponent b).toInt = f b := fun {f} => by
    rw [← Dimension.ofExponents_eq_ok_iff]
    cases Dimension.ofExponents f <;> simp [Except.toOption]
  rw [multiply?, Option.bind_eq_bind, Option.bind_eq_some_iff]
  simp only [ok]

theorem dimension_mul (a b : PhysicalUnit) :
    (a.mul b).toOption.map dimension = (a.dimension.mul b.dimension).toOption := by
  rw [mul]
  cases a.dimension.mul b.dimension <;> rfl

theorem dimension_div (a b : PhysicalUnit) :
    (a.div b).toOption.map dimension = (a.dimension.div b.dimension).toOption := by
  rw [div]
  cases a.dimension.div b.dimension <;> rfl

/-- A factor is applied to a unit as it is to its dimension. -/
theorem dimension_applyFactor (whole : String) (u : PhysicalUnit) (divides : Bool)
    (term : List Char) : (applyFactor whole u divides term).toOption.map dimension =
      multiply? u.dimension (divides, term) := by
  by_cases one : term = ['1'] ∧ divides = false
  · have stays : multiply? u.dimension (divides, term) = some u.dimension :=
      multiply?_eq_some_iff.2 ⟨fun _ => 0, if_pos one, fun _ => (Int.add_zero _).symm⟩
    rw [stays, applyFactor, if_pos one]
    rfl
  · rw [applyFactor, if_neg one, multiply?, exponents?, if_neg one]
    cases power? term with
    | none => rfl
    | some power =>
        obtain ⟨base, exponent⟩ := power
        dsimp only [Option.bind_eq_bind, Option.bind_some]
        cases simple? base with
        | none => rfl
        | some unit =>
            dsimp only [Option.bind_some]
            rw [pow]
            cases unit.dimension.pow exponent with
            | error e => rfl
            | ok d =>
                cases divides with
                | false => exact dimension_mul u _
                | true => exact dimension_div u _

/-- **A fold over factors of a symbol multiplies their dimensions.** -/
theorem dimension_foldlM (whole : String) (u : PhysicalUnit) (fs : List Factor) :
    (fs.foldlM (fun u (divides, term) => applyFactor whole u divides term) u).toOption.map
      dimension = fs.foldlM multiply? u.dimension := by
  induction fs generalizing u with
  | nil => rfl
  | cons factor rest ih =>
      obtain ⟨divides, term⟩ := factor
      have step := dimension_applyFactor whole u divides term
      rw [List.foldlM_cons, List.foldlM_cons, ← step]
      dsimp only
      cases applyFactor whole u divides term with
      | error e => rfl
      | ok v => exact ih v

/-- The symbol of a unit is no part of its dimension. -/
theorem dimension_withSymbol (made : Except UnitError PhysicalUnit) (symbol : String) :
    (made.bind fun unit => .ok { unit with symbol := symbol }).toOption.map dimension =
      made.toOption.map dimension := by
  cases made <;> rfl

end Totals

/-! ## Names of units -/

/-- What may stand in the name of a unit: no blank, no digit, and no mark of a symbol. -/
def isSymbolChar (c : Char) : Bool :=
  !Text.isBlank c && !c.isDigit && c != '*' && c != '/' && c != '^'

theorem simple?_nil : simple? [] = none := by decide

/-- What holds of the characters of all names and prefixes holds of those of a prefixed name. -/
theorem all_of_simple? {p : Char → Bool} (names : (named.all fun u => u.name.all p) = true)
    (heads : (prefixes.all fun head => head.1.all p) = true) {symbol : List Char}
    {unit : PhysicalUnit} (read : simple? symbol = some unit) : ∀ c ∈ symbol, p c = true := by
  simp only [List.all_eq_true] at names heads
  unfold simple? at read
  split at read
  · rename_i u found
    have same := List.find?_some found
    simp only [beq_iff_eq] at same
    rw [← same]
    exact names u (List.mem_of_find?_eq_some found)
  · obtain ⟨⟨head, factor⟩, isPrefix, read⟩ := List.exists_of_findSome?_eq_some read
    unfold prefixed? at read
    dsimp only at read
    split at read
    · cases read
    · rename_i rest behind
      obtain ⟨u, found, _⟩ := Option.map_eq_some_iff.1 read
      have same := List.find?_some found
      simp only [Bool.and_eq_true, beq_iff_eq] at same
      rw [Text.after?_eq_some behind, ← same.1]
      exact List.forall_mem_append.2
        ⟨heads _ isPrefix, names u (List.mem_of_find?_eq_some found)⟩

theorem isSymbolChar_of_simple? {symbol : List Char} {unit : PhysicalUnit}
    (read : simple? symbol = some unit) : ∀ c ∈ symbol, isSymbolChar c = true :=
  all_of_simple? (by decide) (by decide) read

/-- No mark, digit or blank is in the name of a unit. -/
theorem not_mem_of_simple? {symbol : List Char} {unit : PhysicalUnit}
    (read : simple? symbol = some unit) {mark : Char} (never : isSymbolChar mark = false) :
    mark ∉ symbol := fun there =>
  Bool.false_ne_true (never.symm.trans (isSymbolChar_of_simple? read mark there))

/-! ## Pieces of symbols -/

section Pieces

variable {a b : List Char} {divides : Bool} {term : List Char}

/-- No pair of asterisks forms where one of two texts has none at the seam. -/
theorem caretPowers_append (seam : a.getLast? ≠ some '*' ∨ b.head? ≠ some '*') :
    caretPowers (a ++ b) = caretPowers a ++ caretPowers b := by
  fun_induction caretPowers a with
  | case1 rest ih =>
      rw [List.cons_append, List.cons_append, caretPowers, ih, List.cons_append]
      refine seam.imp_left fun last is => last ?_
      rw [List.getLast?_cons, List.getLast?_cons, is]
      rfl
  | case2 c rest other ih =>
      rw [List.cons_append, caretPowers, ih, List.cons_append]
      · refine seam.imp_left fun last is => last ?_
        rw [List.getLast?_cons, is]
        rfl
      · intro rest' star pair
        cases rest with
        | nil =>
            rw [List.nil_append] at pair
            rcases seam with last | head
            · exact last (by rw [star]; rfl)
            · exact head (by rw [pair]; rfl)
        | cons d more =>
            obtain ⟨rfl, _⟩ := List.cons.inj pair
            exact other more star rfl
  | case3 => rfl

theorem caretPowers_of_free (free : '*' ∉ a) : caretPowers a = a := by
  induction a with
  | nil => rfl
  | cons c rest ih =>
      rw [List.mem_cons, not_or] at free
      rw [caretPowers, ih free.2]
      exact fun _ star => absurd star.symm free.1

theorem withoutBlanks_of_free (free : ∀ c ∈ a, Text.isBlank c = false) :
    Text.withoutBlanks a = a :=
  List.filter_eq_self.2 fun c there => by rw [free c there]; rfl

/-- A mark parts the factors in front of it from those behind. -/
theorem factors_append {c : Char} (mark : c = '*' ∨ c = '/') (b : List Char) :
    factors divides term (a ++ c :: b) = factors divides term a ++ factors (c = '/') [] b := by
  induction a generalizing divides term with
  | nil =>
      rw [List.nil_append, factors.eq_2, if_pos mark]
      rfl
  | cons d rest ih =>
      rw [List.cons_append, factors, factors]
      split
      · rw [ih, List.cons_append]
      · exact ih

/-- Text behind the last factor. -/
def extendLast (text : List Char) : List Factor → List Factor
  | [] => []
  | [(divides, term)] => [(divides, term ++ text)]
  | first :: rest => first :: extendLast text rest

theorem extendLast_concat (text : List Char) (fs : List Factor) (last : Factor) :
    extendLast text (fs ++ [last]) = fs ++ [(last.1, last.2 ++ text)] := by
  induction fs with
  | nil => rfl
  | cons first rest ih =>
      cases rest with
      | nil => rfl
      | cons second others => exact congrArg (first :: ·) ih

/-- The first factor starts with the text in front, and divides only if it is read so. -/
theorem exists_factors (term a : List Char) :
    ∃ more rest, ∀ divides, factors divides term a = (divides, term ++ more) :: rest := by
  induction a generalizing term with
  | nil => exact ⟨[], [], fun _ => by rw [factors, List.append_nil]⟩
  | cons c rest ih =>
      by_cases mark : c = '*' ∨ c = '/'
      · exact ⟨[], _, fun divides => by rw [factors, if_pos mark, List.append_nil]⟩
      · obtain ⟨more, others, shape⟩ := ih (term ++ [c])
        exact ⟨c :: more, others, fun divides => by
          rw [factors, if_neg mark, shape, List.append_assoc]
          rfl⟩

/-- Text without marks belongs to the factor in front of it. -/
theorem factors_append_free (free : ∀ c ∈ b, ¬(c = '*' ∨ c = '/')) :
    factors divides term (a ++ b) = extendLast b (factors divides term a) := by
  induction a generalizing divides term with
  | nil =>
      rw [List.nil_append, factors.eq_1, extendLast]
      induction b generalizing term with
      | nil => rw [factors, List.append_nil]
      | cons c rest ih =>
          obtain ⟨here, others⟩ := List.forall_mem_cons.1 free
          rw [factors, if_neg here, ih others, List.append_assoc]
          rfl
  | cons c rest ih =>
      rw [List.cons_append, factors, factors]
      split
      · obtain ⟨first, others, shape⟩ := exists_factors [] rest
        rw [ih, shape]
        rfl
      · exact ih

end Pieces

/-! ## Symbols -/

/-- The factors of a text without blanks around it. -/
def factorsOf (symbol : List Char) : List Factor :=
  if symbol = [] then [] else factors false [] (Text.withoutBlanks (caretPowers symbol))

section Symbols

variable {symbol a b : List Char} {unit : PhysicalUnit}

theorem factorsOf_eq_nil_iff : factorsOf symbol = [] ↔ symbol = [] := by
  obtain ⟨first, rest, shape⟩ := exists_factors [] (Text.withoutBlanks (caretPowers symbol))
  rw [factorsOf, shape]
  split <;> simp_all

/-- Dividing by a factor takes its exponents away; a plain `1` cannot be divided by. -/
theorem exponents?_true (term : List Char) : exponents? (true, term) =
    if term = ['1'] then none else (exponents? (false, term)).map fun f b => -f b := by
  split
  · rename_i one
    rw [one]
    decide
  · rename_i other
    rw [exponents?, exponents?, if_neg (by simp), if_neg (by simp [other])]
    cases power? term with
    | none => rfl
    | some power =>
        obtain ⟨base, exponent⟩ := power
        dsimp only [Option.bind_eq_bind, Option.bind_some]
        cases simple? base with
        | none => rfl
        | some unit =>
            dsimp only [Option.bind_some]
            cases unit.dimension.pow exponent <;> rfl

/-- A simple unit adds its exponents. -/
theorem exponents?_of_simple? (read : simple? symbol = some unit) (divides : Bool) :
    exponents? (divides, symbol) = some fun b =>
      if divides then -(unit.dimension.exponent b).toInt else (unit.dimension.exponent b).toInt := by
  have noDigit : '1' ∉ symbol := not_mem_of_simple? read (by decide)
  have free : '^' ∉ symbol := not_mem_of_simple? read (by decide)
  have noOne : ¬(symbol = ['1'] ∧ divides = false) := by
    rintro ⟨rfl, _⟩
    exact noDigit (List.mem_singleton.2 rfl)
  have noCaret : Text.splitFirst? (· = '^') symbol = none :=
    Text.splitFirst?_none fun c there => decide_eq_false fun same => free (same ▸ there)
  rw [exponents?, if_neg noOne, power?, noCaret]
  dsimp only [Option.bind_eq_bind, Option.bind_some]
  rw [read, Option.bind_some, Dimension.pow_one]
  rfl

/-- A symbol without marks is a single factor. -/
theorem factorsOf_of_free (some' : symbol ≠ [])
    (free : ∀ c ∈ symbol, Text.isBlank c = false ∧ c ≠ '*' ∧ c ≠ '/') :
    factorsOf symbol = [(false, symbol)] := by
  rw [factorsOf, if_neg some', caretPowers_of_free fun there => (free _ there).2.1 rfl,
    withoutBlanks_of_free fun c there => (free c there).1]
  exact factors_append_free (a := []) fun c there => not_or.2 (free c there).2

theorem factorsOf_of_simple? (read : simple? symbol = some unit) :
    factorsOf symbol = [(false, symbol)] := by
  refine factorsOf_of_free ?_ fun c there => ?_
  · rintro rfl
    exact absurd (simple?_nil.symm.trans read) (Option.some_ne_none _).symm
  · have plain := isSymbolChar_of_simple? read c there
    simp only [isSymbolChar, Bool.and_eq_true, Bool.not_eq_true', bne_iff_ne] at plain
    exact ⟨plain.1.1.1.1, plain.1.1.2, plain.1.2⟩

/-- **A text is read as the product of its factors.** -/
theorem dimension_parse (text : String) : (parse text).toOption.map dimension =
    total? (factorsOf (Text.trim text.toList)) := by
  rw [parse]
  dsimp only
  generalize Text.trim text.toList = trimmed
  by_cases none' : trimmed = []
  · rw [none']
    rfl
  · rw [if_neg none']
    cases read : simple? trimmed with
    | some unit =>
        have whole : multiply? .none (false, trimmed) = some unit.dimension :=
          multiply?_eq_some_iff.2
            ⟨_, exponents?_of_simple? read false, fun b => by
              rw [Dimension.toInt_none, Int.zero_add, if_neg Bool.false_ne_true]⟩
        rw [factorsOf_of_simple? read, total?, List.foldlM_cons, whole]
        rfl
    | none =>
        have folded := dimension_foldlM (String.ofList trimmed) dimensionless (factorsOf trimmed)
        rw [factorsOf, if_neg none'] at folded
        rw [factorsOf, if_neg none', total?]
        exact (dimension_withSymbol _ _).trans folded

/-- A text without marks is a unit only if it is the name of one. -/
theorem simple?_of_parse {text : String} (read : parse text = .ok unit)
    (some' : text.toList ≠ []) (noOne : text.toList ≠ ['1'])
    (free : ∀ c ∈ text.toList, Text.isBlank c = false ∧ c ≠ '*' ∧ c ≠ '/' ∧ c ≠ '^') :
    ∃ unit, simple? text.toList = some unit := by
  have trimmed : Text.trim text.toList = text.toList :=
    Text.Trimmed.trim_eq ⟨fun c there => (free c (List.mem_of_mem_head? there)).1,
      fun c there => (free c (List.mem_of_getLast? there)).1⟩
  have whole := dimension_parse text
  rw [read, trimmed, factorsOf_of_free some' fun c there =>
    ⟨(free c there).1, (free c there).2.1, (free c there).2.2.1⟩, total?, List.foldlM_cons] at whole
  obtain ⟨d, multiplied, _⟩ := Option.bind_eq_some_iff.1 whole.symm
  obtain ⟨f, exponents, _⟩ := multiply?_eq_some_iff.1 multiplied
  have noCaret : Text.splitFirst? (· = '^') text.toList = none :=
    Text.splitFirst?_none fun c there => decide_eq_false (free c there).2.2.2
  rw [exponents?, if_neg fun one => noOne one.1, power?, noCaret] at exponents
  dsimp only [Option.bind_eq_bind, Option.bind_some] at exponents
  obtain ⟨named, found, _⟩ := Option.bind_eq_some_iff.1 exponents
  exact ⟨named, found⟩

end Symbols

/-! ## Ends of symbols -/

/-- A text with no blank and no asterisk at either end. -/
structure Edged (cs : List Char) : Prop extends Text.Trimmed cs where
  noStarFirst : cs.head? ≠ some '*'
  noStarLast : cs.getLast? ≠ some '*'

theorem edged_of_free {cs : List Char} (free : ∀ c ∈ cs, Text.isBlank c = false ∧ c ≠ '*') :
    Edged cs where
  first c there := (free c (List.mem_of_mem_head? there)).1
  last c there := (free c (List.mem_of_mem_getLast? there)).1
  noStarFirst star := (free '*' (List.mem_of_mem_head? star)).2 rfl
  noStarLast star := (free '*' (List.mem_of_mem_getLast? star)).2 rfl

section Ends

variable {a b text : List Char} {divides : Bool}

theorem exponents?_nil : exponents? (divides, []) = none := by
  cases divides <;> decide

/-- A power has a base. -/
theorem exponents?_caret : exponents? (divides, '^' :: text) = none := by
  have base : power? ('^' :: text) = (Number.readInt64? text).map fun n => ([], n) := rfl
  rw [exponents?, if_neg (by simp), base]
  cases Number.readInt64? text with
  | none => rfl
  | some n =>
      dsimp only [Option.map_some, Option.bind_eq_bind, Option.bind_some]
      rw [simple?_nil]
      rfl

/-- A power has one exponent. -/
theorem exponents?_of_carets {term : List Char} (twice : text = [] ∨ '^' ∈ term) :
    exponents? (divides, term ++ '^' :: text) = none := by
  have first : ∃ base exponent, term ++ '^' :: text = base ++ '^' :: exponent ∧ '^' ∉ base ∧
      (exponent = [] ∨ '^' ∈ exponent) := by
    by_cases there : '^' ∈ term
    · obtain ⟨base, rest, rfl, free⟩ := List.eq_append_cons_of_mem there
      exact ⟨base, rest ++ '^' :: text, by simp, free, .inr (by simp)⟩
    · exact ⟨term, text, rfl, there, twice.imp_right fun there' => absurd there' there⟩
  obtain ⟨base, exponent, shape, free, unread⟩ := first
  have unread' : Number.readInt64? exponent = none := by
    cases read : Number.readInt64? exponent with
    | none => rfl
    | some n =>
        rcases unread with rfl | there
        · cases read
        · exact absurd there (Number.not_mem_of_readInt64? read rfl (by decide))
  have power : power? (base ++ '^' :: exponent) = none := by
    have noCaret : ∀ c ∈ base, decide (c = '^') = false := fun c there =>
      decide_eq_false fun same => free (same ▸ there)
    rw [power?, Text.splitFirst?_append noCaret rfl]
    exact congrArg (Option.map _) unread'
  rw [shape, exponents?, if_neg, power]
  · rfl
  · rintro ⟨one, _⟩
    have there : '^' ∈ base ++ '^' :: exponent := by simp
    rw [one] at there
    exact absurd there (by decide)

theorem multiply?_of_none {d : Dimension} {factor : Factor} (unread : exponents? factor = none) :
    multiply? d factor = none := by
  rw [multiply?, unread]
  rfl

theorem total?_concat (fs : List Factor) (last : Factor) :
    total? (fs ++ [last]) = (total? fs).bind fun d => multiply? d last := by
  rw [total?, List.foldlM_append, ← total?]
  simp [List.foldlM_cons]

theorem total?_concat_of_none {fs : List Factor} {last : Factor}
    (unread : exponents? last = none) : total? (fs ++ [last]) = none := by
  rw [total?_concat]
  simp only [multiply?_of_none unread, Option.bind_fun_none]

theorem exists_concat_factors (divides : Bool) (term a : List Char) :
    ∃ init last, factors divides term a = init ++ [last] := by
  obtain ⟨first, rest, shape⟩ := exists_factors term a
  rcases List.eq_nil_or_concat (factors divides term a) with none' | ⟨init, last, cut⟩
  · rw [shape] at none'
    cases none'
  · exact ⟨init, last, cut.trans (List.concat_eq_append ..)⟩

/-- An asterisk at the front stays one, or becomes a caret. -/
theorem caretPowers_star (rest : List Char) : ∃ mark more,
    caretPowers ('*' :: rest) = mark :: more ∧ (mark = '*' ∨ mark = '^') := by
  cases rest with
  | nil => exact ⟨'*', [], rfl, .inl rfl⟩
  | cons c others =>
      by_cases star : c = '*'
      · exact ⟨'^', _, by rw [star, caretPowers], .inr rfl⟩
      · exact ⟨'*', _, caretPowers.eq_2 _ _ fun _ _ pair => star (List.cons.inj pair).1, .inl rfl⟩

/-- An asterisk at the end stays one, or becomes a caret. -/
theorem caretPowers_concat_star (front : List Char) : ∃ mark more,
    caretPowers (front ++ ['*']) = more ++ [mark] ∧ (mark = '*' ∨ mark = '^') := by
  fun_induction caretPowers front with
  | case1 rest ih =>
      obtain ⟨mark, more, shape, is⟩ := ih
      exact ⟨mark, '^' :: more, by rw [List.cons_append, List.cons_append, caretPowers, shape]; rfl, is⟩
  | case2 c rest other ih =>
      by_cases pair : c = '*' ∧ rest = []
      · obtain ⟨rfl, rfl⟩ := pair
        exact ⟨'^', [], rfl, .inr rfl⟩
      · obtain ⟨mark, more, shape, is⟩ := ih
        refine ⟨mark, c :: more, ?_, is⟩
        rw [List.cons_append, caretPowers, shape]
        · rfl
        · intro rest' star same
          cases rest with
          | nil => exact pair ⟨star, rfl⟩
          | cons d others =>
              obtain ⟨rfl, _⟩ := List.cons.inj same
              exact other others star rfl
  | case3 => exact ⟨'*', [], rfl, .inl rfl⟩

/-- **A symbol that can be read has no asterisk at either end.** -/
theorem edged_of_total {d : Dimension} (trimmed : Text.Trimmed a)
    (readable : total? (factorsOf a) = some d) : Edged a := by
  refine ⟨trimmed, fun star => ?_, fun star => ?_⟩
  · obtain ⟨rest, rfl⟩ : ∃ rest, a = '*' :: rest := by
      cases a with
      | nil => cases star
      | cons c rest => exact ⟨rest, by rw [Option.some.inj star]⟩
    obtain ⟨mark, more, shape, is⟩ := caretPowers_star rest
    rw [factorsOf, if_neg (List.cons_ne_nil _ _), shape, total?] at readable
    rcases is with rfl | rfl
    · have cut : factors false [] (Text.withoutBlanks ('*' :: more)) =
          (false, []) :: factors false [] (Text.withoutBlanks more) := rfl
      rw [cut, List.foldlM_cons, multiply?_of_none exponents?_nil] at readable
      cases readable
    · obtain ⟨term, others, shape⟩ := exists_factors ['^'] (Text.withoutBlanks more)
      have cut : factors false [] (Text.withoutBlanks ('^' :: more)) =
          (false, '^' :: term) :: others := shape false
      rw [cut, List.foldlM_cons, multiply?_of_none exponents?_caret] at readable
      cases readable
  · obtain ⟨front, rfl⟩ : ∃ front, a = front ++ ['*'] := by
      rcases List.eq_nil_or_concat a with rfl | ⟨front, c, rfl⟩
      · cases star
      · rw [List.concat_eq_append, List.getLast?_concat] at star
        exact ⟨front, by rw [List.concat_eq_append, Option.some.inj star]⟩
    obtain ⟨mark, more, shape, is⟩ := caretPowers_concat_star front
    rw [factorsOf, if_neg (by simp), shape, Text.withoutBlanks, List.filter_append] at readable
    rcases is with rfl | rfl
    · have unread : total? (factors false [] (Text.withoutBlanks more ++ ['*'])) = none := by
        rw [factors_append (.inl rfl)]
        exact total?_concat_of_none exponents?_nil
      exact absurd (unread.symm.trans readable) (Option.some_ne_none _).symm
    · have free : ∀ c ∈ ['^'], ¬(c = '*' ∨ c = '/') := List.forall_mem_singleton.2 (by decide)
      obtain ⟨init, last, shape⟩ := exists_concat_factors false [] (Text.withoutBlanks more)
      have unread : total? (factors false [] (Text.withoutBlanks more ++ ['^'])) = none := by
        rw [factors_append_free free, shape, extendLast_concat]
        exact total?_concat_of_none (exponents?_of_carets (.inl rfl))
      exact absurd (unread.symm.trans readable) (Option.some_ne_none _).symm

end Ends

/-! ## Joined symbols -/

section Joined

variable {a b text : List Char}

/-- The factors of a quotient's divisor: the first one divides, and only that. -/
def inverted : List Factor → List Factor
  | [] => []
  | (_, term) :: rest => (true, term) :: rest

theorem Edged.append (left : Edged a) (right : Edged b) (middle : List Char) (leftSome : a ≠ [])
    (rightSome : b ≠ []) : Edged (a ++ (middle ++ b)) := by
  obtain ⟨c, front, rfl⟩ := List.exists_cons_of_ne_nil leftSome
  have ends : (c :: front ++ (middle ++ b)).getLast? = b.getLast? := by
    rw [← List.append_assoc, List.getLast?_append, List.getLast?_eq_some_getLast rightSome]
    rfl
  exact ⟨⟨left.first, by rw [ends]; exact right.last⟩, left.noStarFirst,
    by rw [ends]; exact right.noStarLast⟩

theorem factorsOf_some (some' : a ≠ []) :
    factorsOf a = factors false [] (Text.withoutBlanks (caretPowers a)) := if_neg some'

/-- **The factors of a product are those of both symbols.** -/
theorem factorsOf_product (left : Edged a) (right : Edged b) (leftSome : a ≠ [])
    (rightSome : b ≠ []) : factorsOf (a ++ '*' :: b) = factorsOf a ++ factorsOf b := by
  have star : caretPowers ('*' :: b) = '*' :: caretPowers b := by
    refine caretPowers.eq_2 _ _ fun rest _ pair => right.noStarFirst ?_
    rw [pair]
    rfl
  rw [factorsOf_some leftSome, factorsOf_some rightSome, factorsOf_some (by simp),
    caretPowers_append (.inl left.noStarLast), star, Text.withoutBlanks, List.filter_append]
  exact factors_append (.inl rfl) _

/-- **The first factor behind a slash divides.** -/
theorem factorsOf_quotient (leftSome : a ≠ []) (rightSome : b ≠ []) :
    factorsOf (a ++ '/' :: b) = factorsOf a ++ inverted (factorsOf b) := by
  have slash : caretPowers ('/' :: b) = '/' :: caretPowers b :=
    caretPowers.eq_2 _ _ fun _ star => absurd star (by decide)
  obtain ⟨first, rest, shape⟩ := exists_factors [] (Text.withoutBlanks (caretPowers b))
  rw [factorsOf_some leftSome, factorsOf_some rightSome, factorsOf_some (by simp),
    caretPowers_append (.inr (by simp)), slash, Text.withoutBlanks, List.filter_append, shape]
  exact (factors_append (.inr rfl) _).trans (congrArg (_ ++ ·) (shape true))

/-- **An exponent belongs to the last factor.** -/
theorem factorsOf_power (some' : a ≠ [])
    (digits : ∀ c ∈ text, Text.isBlank c = false ∧ ¬(c = '*' ∨ c = '/')) :
    factorsOf (a ++ '^' :: text) = extendLast ('^' :: text) (factorsOf a) := by
  have noStar : '*' ∉ '^' :: text := by
    rw [List.mem_cons, not_or]
    exact ⟨by decide, fun there => (digits _ there).2 (.inl rfl)⟩
  have noBlank : ∀ c ∈ '^' :: text, Text.isBlank c = false :=
    List.forall_mem_cons.2 ⟨by decide, fun c there => (digits c there).1⟩
  have noMark : ∀ c ∈ '^' :: text, ¬(c = '*' ∨ c = '/') :=
    List.forall_mem_cons.2 ⟨by decide, fun c there => (digits c there).2⟩
  rw [factorsOf_some some', factorsOf_some (by simp), caretPowers_append (.inr (by simp)),
    caretPowers_of_free noStar, Text.withoutBlanks, List.filter_append]
  refine Eq.trans ?_ (factors_append_free noMark)
  congr 2
  exact withoutBlanks_of_free noBlank

end Joined

end PhysicalUnit

end PulseSequencer
