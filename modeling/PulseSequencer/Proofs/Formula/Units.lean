import PulseSequencer.Proofs.Formula.Parsing
import PulseSequencer.Proofs.Formula.Reading
import PulseSequencer.Proofs.Units.Symbols

/-
# PulseSequencer.Proofs.Formula.Units -- the units that values come to have

The units of a parsed formula are names, and arithmetic joins symbols by operators and
exponents.  So every unit of a value is spelled with these characters alone, and has no
blank, bracket or quote in it: `run_spelled`.
-/

namespace PulseSequencer

set_option autoImplicit false

/-- The characters that units are spelled with: those of names, of exponents, and the
operators between them. -/
def isUnitChar (c : Char) : Bool :=
  Formula.isNamePart c || Number.isNumberChar c || c == '*' || c == '/' || c == '^'

theorem isUnitChar_of_name {c : Char} (part : Formula.isNamePart c = true) :
    isUnitChar c = true := by
  simp [isUnitChar, part]

theorem isUnitChar_of_number {c : Char} (number : Number.isNumberChar c = true) :
    isUnitChar c = true := by
  simp [isUnitChar, number]

/-- A unit whose symbol is spelled with unit characters. -/
abbrev PhysicalUnit.Spelled (unit : PhysicalUnit) : Prop := unit.MadeOf (isUnitChar · = true)

mutual

/-- Whether the units of a formula are spelled with unit characters. -/
def Formula.spelled : Formula → Bool
  | .int _ _ | .float _ _ | .text _ _ | .name _ _ => true
  | .quantity _ _ unit => unit.symbol.toList.all isUnitChar
  | .list _ items => Formula.spelledItems items
  | .dict _ items => Formula.spelledPairs items
  | .unary _ _ operand => operand.spelled
  | .binary _ _ left right => left.spelled && right.spelled
  | .call _ _ args => Formula.spelledItems args
  | .index _ target key => target.spelled && key.spelled

def Formula.spelledItems : List Formula → Bool
  | [] => true
  | item :: rest => item.spelled && Formula.spelledItems rest

def Formula.spelledPairs : List (Formula × Formula) → Bool
  | [] => true
  | (key, item) :: rest => key.spelled && item.spelled && Formula.spelledPairs rest

end

mutual

/-- The units in a value are spelled with unit characters. -/
def Value.Spelled : Value → Prop
  | .bool _ | .int _ | .float _ | .text _ => True
  | .quantity q => q.unit.Spelled
  | .list items => Value.SpelledItems items
  | .dict entries => Value.SpelledEntries entries

def Value.SpelledItems : List Value → Prop
  | [] => True
  | v :: rest => v.Spelled ∧ Value.SpelledItems rest

def Value.SpelledEntries : List (String × Value) → Prop
  | [] => True
  | (_, v) :: rest => v.Spelled ∧ Value.SpelledEntries rest

end

/-! ## Formulas -/

namespace Formula

section MadeOf

variable {P : String → Prop}

mutual

/-- A formula of names is spelled with unit characters. -/
theorem spelled_of_madeOf
    (parts : ∀ name, P name → ∀ c ∈ name.toList, isNamePart c = true) :
    ∀ f : Formula, f.MadeOf P → f.spelled = true
  | .int _ _, _ | .float _ _, _ | .text _ _, _ | .name _ _, _ => by simp only [Formula.spelled]
  | .quantity _ _ unit, ⟨symbol, is, read⟩ => by
      rw [Formula.spelled, List.all_eq_true]
      exact fun c there =>
        isUnitChar_of_name (parts symbol is c (PhysicalUnit.mem_of_symbol read there))
  | .list _ items, made => by
      rw [Formula.spelled]
      exact spelledItems_of_madeOf parts items (by simpa only [Formula.MadeOf] using made)
  | .dict _ items, made => by
      rw [Formula.spelled]
      exact spelledPairs_of_madeOf parts items (by simpa only [Formula.MadeOf] using made)
  | .unary _ _ operand, made => by
      rw [Formula.spelled]
      exact spelled_of_madeOf parts operand (by simpa only [Formula.MadeOf] using made)
  | .binary _ _ left right, made => by
      simp only [Formula.MadeOf] at made
      rw [Formula.spelled, Bool.and_eq_true]
      exact ⟨spelled_of_madeOf parts left made.1, spelled_of_madeOf parts right made.2⟩
  | .call _ _ args, made => by
      rw [Formula.spelled]
      exact spelledItems_of_madeOf parts args (by simpa only [Formula.MadeOf] using made)
  | .index _ target key, made => by
      simp only [Formula.MadeOf] at made
      rw [Formula.spelled, Bool.and_eq_true]
      exact ⟨spelled_of_madeOf parts target made.1, spelled_of_madeOf parts key made.2⟩

theorem spelledItems_of_madeOf
    (parts : ∀ name, P name → ∀ c ∈ name.toList, isNamePart c = true) :
    ∀ items : List Formula, Formula.MadeOfItems P items → Formula.spelledItems items = true
  | [], _ => by rw [Formula.spelledItems]
  | item :: rest, made => by
      simp only [Formula.MadeOfItems] at made
      rw [Formula.spelledItems, Bool.and_eq_true]
      exact ⟨spelled_of_madeOf parts item made.1, spelledItems_of_madeOf parts rest made.2⟩

theorem spelledPairs_of_madeOf
    (parts : ∀ name, P name → ∀ c ∈ name.toList, isNamePart c = true) :
    ∀ items : List (Formula × Formula), Formula.MadeOfPairs P items → Formula.spelledPairs items = true
  | [], _ => by rw [Formula.spelledPairs]
  | (key, item) :: rest, made => by
      simp only [Formula.MadeOfPairs] at made
      rw [Formula.spelledPairs, Bool.and_eq_true, Bool.and_eq_true]
      exact ⟨⟨spelled_of_madeOf parts key made.1, spelled_of_madeOf parts item made.2.1⟩,
        spelledPairs_of_madeOf parts rest made.2.2⟩

end

mutual

/-- What holds of the names of a formula holds of those that it mentions. -/
theorem of_mentioned : ∀ f : Formula, f.MadeOf P → ∀ name ∈ f.mentioned, P name
  | .int _ _, _, _, there | .float _ _, _, _, there | .quantity _ _ _, _, _, there
  | .text _ _, _, _, there => by
      rw [Formula.mentioned] at there
      exact absurd there List.not_mem_nil
  | .name _ s, made, other, there => by
      rw [Formula.mentioned] at there
      exact List.mem_singleton.1 there ▸ made
  | .list _ items, made, other, there => by
      rw [Formula.mentioned] at there
      exact of_mentionedItems items (by simpa only [Formula.MadeOf] using made) other there
  | .dict _ items, made, other, there => by
      rw [Formula.mentioned] at there
      exact of_mentionedPairs items (by simpa only [Formula.MadeOf] using made) other there
  | .unary _ _ operand, made, other, there => by
      rw [Formula.mentioned] at there
      exact of_mentioned operand (by simpa only [Formula.MadeOf] using made) other there
  | .binary _ _ left right, made, other, there => by
      rw [Formula.mentioned] at there
      simp only [Formula.MadeOf] at made
      rcases List.mem_append.1 there with here | here
      · exact of_mentioned left made.1 other here
      · exact of_mentioned right made.2 other here
  | .call _ _ args, made, other, there => by
      rw [Formula.mentioned] at there
      exact of_mentionedItems args (by simpa only [Formula.MadeOf] using made) other there
  | .index _ target key, made, other, there => by
      rw [Formula.mentioned] at there
      simp only [Formula.MadeOf] at made
      rcases List.mem_append.1 there with here | here
      · exact of_mentioned target made.1 other here
      · exact of_mentioned key made.2 other here

theorem of_mentionedItems : ∀ items : List Formula, Formula.MadeOfItems P items →
    ∀ name ∈ Formula.mentionedItems items, P name
  | [], _, _, there => by
      rw [Formula.mentionedItems] at there
      exact absurd there List.not_mem_nil
  | item :: rest, made, other, there => by
      rw [Formula.mentionedItems] at there
      simp only [Formula.MadeOfItems] at made
      rcases List.mem_append.1 there with here | here
      · exact of_mentioned item made.1 other here
      · exact of_mentionedItems rest made.2 other here

theorem of_mentionedPairs : ∀ items : List (Formula × Formula), Formula.MadeOfPairs P items →
    ∀ name ∈ Formula.mentionedPairs items, P name
  | [], _, _, there => by
      rw [Formula.mentionedPairs] at there
      exact absurd there List.not_mem_nil
  | (key, item) :: rest, made, other, there => by
      rw [Formula.mentionedPairs, List.mem_append, List.mem_append] at there
      simp only [Formula.MadeOfPairs] at made
      rcases there with (here | here) | here
      · exact of_mentioned key made.1 other here
      · exact of_mentioned item made.2.1 other here
      · exact of_mentionedPairs rest made.2.2 other here

end

end MadeOf

end Formula

/-! ## Values -/

namespace Value

theorem spelledItems_iff {items : List Value} : SpelledItems items ↔ ∀ v ∈ items, v.Spelled := by
  induction items with
  | nil => simp [SpelledItems]
  | cons v rest ih => simp [SpelledItems, ih]

theorem spelledEntries_iff {entries : List (String × Value)} :
    SpelledEntries entries ↔ ∀ entry ∈ entries, entry.2.Spelled := by
  induction entries with
  | nil => simp [SpelledEntries]
  | cons entry rest ih => simp [SpelledEntries, ih]

theorem spelledEntries_put {name : String} {v : Value} {entries : List (String × Value)}
    (here : v.Spelled) (others : SpelledEntries entries) :
    SpelledEntries (Table.put name v entries) := by
  induction entries with
  | nil => exact ⟨here, trivial⟩
  | cons entry rest ih =>
      obtain ⟨key, old⟩ := entry
      rw [Table.put]
      split
      · exact ⟨here, others.2⟩
      · exact ⟨others.1, ih others.2⟩

theorem spelled_of_lookup {name : String} {v : Value} {entries : List (String × Value)}
    (spelled : SpelledEntries entries) (found : entries.lookup name = some v) : v.Spelled := by
  obtain ⟨l₁, l₂, rfl, _⟩ := List.lookup_eq_some_iff.1 found
  exact spelledEntries_iff.1 spelled (name, v) (by simp)

variable {v : Value} {q : Quantity}

theorem spelled_ofQuantity (spelled : q.unit.Spelled) : (ofQuantity q).Spelled := by
  unfold ofQuantity
  split
  · exact trivial
  · exact spelled

theorem spelled_toQuantity (spelled : v.Spelled) (read : v.toQuantity = .ok q) :
    q.unit.Spelled := by
  cases v with
  | quantity q' => exact Except.ok.inj read ▸ spelled
  | bool b => exact Except.ok.inj read ▸ PhysicalUnit.madeOf_dimensionless
  | int n => exact Except.ok.inj read ▸ PhysicalUnit.madeOf_dimensionless
  | float x => exact Except.ok.inj read ▸ PhysicalUnit.madeOf_dimensionless
  | text s => cases read
  | list items => cases read
  | dict entries => cases read

end Value

/-! ## Arithmetic -/

namespace Quantity

variable {a b q : Quantity}

theorem unit_add (added : a.add b = .ok q) : q.unit = a.unit := by
  obtain ⟨_, _, result⟩ := bind_eq_ok.1 added
  rw [← Except.ok.inj result]

theorem unit_rem (taken : a.rem b = .ok q) : q.unit = a.unit := by
  obtain ⟨_, _, result⟩ := bind_eq_ok.1 taken
  rw [← Except.ok.inj result]

theorem spelled_simplified (spelled : q.unit.Spelled) : (q.simplified a b).unit.Spelled := by
  unfold simplified
  split
  · exact PhysicalUnit.madeOf_dimensionless
  · exact spelled

theorem spelled_mul (left : a.unit.Spelled) (right : b.unit.Spelled) (made : a.mul b = .ok q) :
    q.unit.Spelled := by
  obtain ⟨unit, product, result⟩ := bind_eq_ok.1 made
  rw [← Except.ok.inj result]
  exact spelled_simplified (PhysicalUnit.madeOf_mul (by decide) left right product)

theorem spelled_div (left : a.unit.Spelled) (right : b.unit.Spelled) (made : a.div b = .ok q) :
    q.unit.Spelled := by
  obtain ⟨unit, quotient, result⟩ := bind_eq_ok.1 made
  rw [← Except.ok.inj result]
  exact spelled_simplified (PhysicalUnit.madeOf_div (by decide) (by decide) left right quotient)

theorem spelled_pow (left : a.unit.Spelled) (made : Formula.quantityPow a b = .ok q) :
    q.unit.Spelled := by
  obtain ⟨exponent, _, made⟩ := bind_eq_ok.1 made
  split at made
  · obtain ⟨unit, power, result⟩ := bind_eq_ok.1 made
    rw [← Except.ok.inj result]
    exact PhysicalUnit.madeOf_pow (by decide) (fun c number => isUnitChar_of_number number) left power
  · obtain ⟨base, _, result⟩ := bind_eq_ok.1 made
    rw [← Except.ok.inj result]
    exact PhysicalUnit.madeOf_dimensionless

end Quantity

namespace Formula

section Operators

variable {op : BinaryOp} {a b v : Value}

theorem spelled_quantityBinary {x y : Quantity} (left : x.unit.Spelled) (right : y.unit.Spelled)
    (made : quantityBinary op x y = .ok v) : v.Spelled := by
  obtain ⟨q, result, same⟩ := bind_eq_ok.1 made
  rw [← Except.ok.inj same]
  refine Value.spelled_ofQuantity ?_
  have made' := ok_of_mapError result
  split at made'
  · exact Quantity.unit_add made' ▸ left
  · exact Quantity.unit_add made' ▸ left
  · exact Quantity.spelled_mul left right made'
  · exact Quantity.spelled_div left right made'
  · exact Quantity.unit_rem made' ▸ left
  · exact Quantity.spelled_pow left made'

theorem spelled_intBinary {m n : Int} (made : intBinary op m n = .ok v) : v.Spelled := by
  unfold intBinary at made
  repeat' split at made
  all_goals first
    | cases made; done
    | rw [← Except.ok.inj made]; exact trivial

theorem spelled_arithmetic (left : a.Spelled) (right : b.Spelled)
    (made : arithmetic op a b = .ok v) : v.Spelled := by
  unfold arithmetic at made
  split at made
  · rw [← Except.ok.inj made]
    exact trivial
  · rw [← Except.ok.inj made]
    refine Value.spelledItems_iff.2 fun item there => ?_
    rcases List.mem_append.1 there with first | second
    · exact Value.spelledItems_iff.1 left item first
    · exact Value.spelledItems_iff.1 right item second
  · exact spelled_intBinary made
  · exact spelled_intBinary made
  · exact spelled_intBinary made
  · exact spelled_intBinary made
  · obtain ⟨y, read, made⟩ := bind_eq_ok.1 made
    exact spelled_quantityBinary left (Value.spelled_toQuantity right read) made
  · obtain ⟨x, read, made⟩ := bind_eq_ok.1 made
    exact spelled_quantityBinary (Value.spelled_toQuantity left read) right made
  · split at made
    · obtain ⟨_, _, made⟩ := bind_eq_ok.1 made
      obtain ⟨_, _, made⟩ := bind_eq_ok.1 made
      rw [← Except.ok.inj made]
      exact trivial
    · cases made

theorem spelled_applyBinary (left : a.Spelled) (right : b.Spelled)
    (made : applyBinary op a b = .ok v) : v.Spelled := by
  have compared : ∀ holds : Ordering → Bool,
      (do return Value.bool (holds (← a.compare b))) = Except.ok v → v.Spelled := by
    intro holds made
    obtain ⟨_, _, made⟩ := bind_eq_ok.1 made
    rw [← Except.ok.inj made]
    exact trivial
  unfold applyBinary at made
  dsimp only at made
  split at made
  · rw [← Except.ok.inj made]
    exact trivial
  · rw [← Except.ok.inj made]
    exact trivial
  · exact compared _ made
  · exact compared _ made
  · exact compared _ made
  · exact compared _ made
  · exact spelled_arithmetic left right made

theorem spelled_applyUnary {op : UnaryOp} (spelled : a.Spelled) (made : applyUnary op a = .ok v) :
    v.Spelled := by
  unfold applyUnary at made
  repeat' split at made
  all_goals first
    | cases made; done
    | exact Except.ok.inj made ▸ spelled
    | rw [← Except.ok.inj made]; exact trivial

theorem spelled_subscript (spelled : a.Spelled) (made : subscript a b = .ok v) : v.Spelled := by
  unfold subscript at made
  split at made
  · obtain ⟨i, _, made⟩ := bind_eq_ok.1 made
    dsimp only at made
    split at made
    · split at made
      · rename_i found
        rw [← Except.ok.inj made]
        exact Value.spelledItems_iff.1 spelled _ (List.mem_of_getElem? found)
      · cases made
    · cases made
  · dsimp only at made
    split at made
    · rename_i found
      rw [← Except.ok.inj made]
      exact Value.spelled_of_lookup spelled found
    · cases made
  · cases made

end Operators

/-! ## Functions -/

section Functions

/-- A function whose values have units of its arguments, or none. -/
def Function.KeepsUnits (f : Function) : Prop :=
  ∀ args v, Value.SpelledItems args → f args = .ok v → v.Spelled

variable {name : String}

theorem keepsUnits_oneArgument {f : Value → Except FormulaError Value}
    (keeps : ∀ x v, x.Spelled → f x = .ok v → v.Spelled) : (oneArgument name f).KeepsUnits := by
  intro args v spelled made
  unfold oneArgument at made
  split at made
  · exact keeps _ v spelled.1 made
  · cases made

theorem keepsUnits_ofFloat (f : Float → Float) : (ofFloat name f).KeepsUnits := by
  refine keepsUnits_oneArgument fun x v _ made => ?_
  obtain ⟨_, _, result⟩ := bind_eq_ok.1 made
  rw [← Except.ok.inj result]
  exact trivial

theorem spelled_onMagnitude {f : Float → Float} {x v : Value} (spelled : x.Spelled)
    (made : onMagnitude f x = .ok v) : v.Spelled := by
  unfold onMagnitude at made
  split at made
  · rw [← Except.ok.inj made]
    exact spelled
  · obtain ⟨_, _, result⟩ := bind_eq_ok.1 made
    rw [← Except.ok.inj result]
    exact trivial

theorem spelled_roundToInt (x : Float) : (roundToInt x).Spelled := by
  unfold roundToInt
  dsimp only
  split <;> exact trivial

theorem keepsUnits_rounding : rounding.KeepsUnits := by
  intro args v spelled made
  unfold rounding at made
  split at made
  · rw [← Except.ok.inj made]
    exact trivial
  · exact spelled_onMagnitude spelled.1 made
  · obtain ⟨x, _, result⟩ := bind_eq_ok.1 made
    rw [← Except.ok.inj result]
    exact spelled_roundToInt x
  · obtain ⟨_, _, made⟩ := bind_eq_ok.1 made
    exact spelled_onMagnitude spelled.1 made
  · cases made

theorem spelled_absolute {x v : Value} (spelled : x.Spelled) (made : absolute x = .ok v) :
    v.Spelled := by
  unfold absolute at made
  split at made
  · split at made
    · cases made
    · rw [← Except.ok.inj made]
      exact trivial
  · rw [← Except.ok.inj made]
    exact trivial
  · exact spelled_onMagnitude spelled made

theorem spelled_truncation {x v : Value} (spelled : x.Spelled) (made : truncation x = .ok v) :
    v.Spelled := by
  unfold truncation at made
  split at made
  · rw [← Except.ok.inj made]
    exact trivial
  · exact spelled_onMagnitude spelled made
  · obtain ⟨_, _, result⟩ := bind_eq_ok.1 made
    rw [← Except.ok.inj result]
    exact trivial

theorem spelled_sign {x v : Value} (made : sign x = .ok v) : v.Spelled := by
  obtain ⟨_, _, result⟩ := bind_eq_ok.1 made
  rw [← Except.ok.inj result]
  exact trivial

theorem spelled_reinterpret {bits : Nat} {x v : Value} (made : reinterpret bits x = .ok v) :
    v.Spelled := by
  obtain ⟨n, _, made⟩ := bind_eq_ok.1 made
  split at made
  · cases made
  · rw [← Except.ok.inj made]
    exact trivial

/-- The better of two values is one of them. -/
theorem spelled_best {wins : Ordering} {items : List Value} {best v : Value}
    (spelled : best.Spelled) (others : ∀ item ∈ items, item.Spelled)
    (made : items.foldlM (fun best item => do
      return if (← item.compare best) = wins then item else best) best = .ok v) : v.Spelled := by
  induction items generalizing best with
  | nil => exact Except.ok.inj made ▸ spelled
  | cons item rest ih =>
      rw [List.foldlM_cons] at made
      obtain ⟨next, compared, made⟩ := bind_eq_ok.1 made
      obtain ⟨order, _, result⟩ := bind_eq_ok.1 compared
      refine ih ?_ (fun other there => others other (List.mem_cons_of_mem _ there)) made
      rw [← Except.ok.inj result]
      split
      · exact others item (List.mem_cons_self ..)
      · exact spelled

theorem keepsUnits_extremum (wins : Ordering) : Function.KeepsUnits (extremum name wins) := by
  intro args v spelled made
  unfold extremum at made
  dsimp only at made
  split at made
  · cases made
  · rename_i head rest is
    have all : ∀ item ∈ head :: rest, item.Spelled := by
      rw [← is]
      split
      · exact Value.spelledItems_iff.1 spelled.1
      · exact Value.spelledItems_iff.1 spelled
    exact spelled_best (all head (List.mem_cons_self ..))
      (fun item there => all item (List.mem_cons_of_mem _ there)) made

/-- Every built-in function keeps units. -/
theorem keepsUnits_builtin {f : Function} (found : builtin? name = some f) : f.KeepsUnits := by
  unfold builtin? at found
  split at found
  all_goals first
    | cases found; done
    | obtain rfl := Option.some.inj found
  all_goals first
    | exact keepsUnits_ofFloat _
    | exact keepsUnits_extremum _
    | exact keepsUnits_rounding
    | exact keepsUnits_oneArgument fun _ _ => spelled_absolute
    | exact keepsUnits_oneArgument fun _ _ => spelled_truncation
    | exact keepsUnits_oneArgument fun _ _ _ => spelled_sign
    | exact keepsUnits_oneArgument fun _ _ _ => spelled_reinterpret

end Functions

/-! ## Evaluation -/

/-- The values of a scope have units spelled with unit characters. -/
def Scope.Spelled (scope : Scope) : Prop := ∀ name v, scope name = some v → v.Spelled

namespace Evaluator

variable {e : Evaluator} {scope : Scope}

theorem spelled_constant {name : String} {v : Value} (found : constant? name = some v) :
    v.Spelled := by
  unfold constant? at found
  split at found
  all_goals first
    | cases found; done
    | obtain rfl := Option.some.inj found
      exact trivial

mutual

/-- **The units of a value are spelled as those of its formula and scope.** -/
theorem run_spelled (functions : ∀ name f, e.function? name = some f → f.KeepsUnits)
    (values : Scope.Spelled scope) : ∀ (f : Formula) {v : Value} {names : List String},
      f.spelled = true → e.run scope f = .ok (v, names) → v.Spelled
  | .int _ n, v, names, _, ran => by
      rw [run] at ran
      obtain ⟨rfl, _⟩ := Prod.mk.inj (Except.ok.inj ran)
      split <;> exact trivial
  | .float _ x, v, names, _, ran => by
      rw [run] at ran
      obtain ⟨rfl, _⟩ := Prod.mk.inj (Except.ok.inj ran)
      exact trivial
  | .quantity _ magnitude unit, v, names, spelled, ran => by
      rw [run] at ran
      obtain ⟨rfl, _⟩ := Prod.mk.inj (Except.ok.inj ran)
      rw [Formula.spelled, List.all_eq_true] at spelled
      exact spelled
  | .text _ s, v, names, _, ran => by
      rw [run] at ran
      obtain ⟨rfl, _⟩ := Prod.mk.inj (Except.ok.inj ran)
      exact trivial
  | .name _ s, v, names, _, ran => by
      rw [run] at ran
      split at ran
      · rename_i found
        obtain ⟨rfl, _⟩ := Prod.mk.inj (Except.ok.inj ran)
        exact values s _ found
      · split at ran
        · rename_i found
          obtain ⟨rfl, _⟩ := Prod.mk.inj (Except.ok.inj ran)
          exact spelled_constant found
        · cases ran
  | .list _ items, v, names, spelled, ran => by
      rw [Formula.spelled] at spelled
      simp only [run, bind_eq_ok] at ran
      obtain ⟨⟨vs, _⟩, ranItems, result⟩ := ran
      obtain ⟨rfl, _⟩ := Prod.mk.inj (Except.ok.inj result)
      exact runItems_spelled functions values items spelled ranItems
  | .dict _ items, v, names, spelled, ran => by
      rw [Formula.spelled] at spelled
      simp only [run, bind_eq_ok] at ran
      obtain ⟨⟨entries, _⟩, ranPairs, result⟩ := ran
      obtain ⟨rfl, _⟩ := Prod.mk.inj (Except.ok.inj result)
      have none' : Value.SpelledEntries [] := trivial
      exact runPairs_spelled functions values items none' spelled ranPairs
  | .unary _ op operand, v, names, spelled, ran => by
      rw [Formula.spelled] at spelled
      simp only [run, bind_eq_ok] at ran
      obtain ⟨⟨x, _⟩, ranOperand, y, applied, result⟩ := ran
      obtain ⟨rfl, _⟩ := Prod.mk.inj (Except.ok.inj result)
      exact spelled_applyUnary (run_spelled functions values operand spelled ranOperand) applied
  | .binary _ op left right, v, names, spelled, ran => by
      rw [Formula.spelled, Bool.and_eq_true] at spelled
      rw [run, bind_eq_ok] at ran
      obtain ⟨⟨a, _⟩, ranLeft, ran⟩ := ran
      have onLeft := run_spelled functions values left spelled.1 ranLeft
      dsimp only at ran
      split at ran
      · obtain ⟨rfl, _⟩ := Prod.mk.inj (Except.ok.inj ran)
        exact onLeft
      · obtain ⟨⟨b, _⟩, ranRight, ran⟩ := bind_eq_ok.1 ran
        have onRight := run_spelled functions values right spelled.2 ranRight
        dsimp only at ran
        split at ran
        · obtain ⟨rfl, _⟩ := Prod.mk.inj (Except.ok.inj ran)
          exact onRight
        · obtain ⟨w, applied, result⟩ := bind_eq_ok.1 ran
          obtain ⟨rfl, _⟩ := Prod.mk.inj (Except.ok.inj result)
          exact spelled_applyBinary onLeft onRight applied
  | .call offset function args, v, names, spelled, ran => by
      rw [Formula.spelled] at spelled
      simp only [run, bind_eq_ok] at ran
      obtain ⟨⟨vs, _⟩, ranItems, w, applied, result⟩ := ran
      obtain ⟨rfl, _⟩ := Prod.mk.inj (Except.ok.inj result)
      unfold apply at applied
      split at applied
      · rename_i f found
        exact functions function f found vs w
          (runItems_spelled functions values args spelled ranItems) applied
      · cases applied
  | .index _ target key, v, names, spelled, ran => by
      rw [Formula.spelled, Bool.and_eq_true] at spelled
      simp only [run, bind_eq_ok] at ran
      obtain ⟨⟨t, _⟩, ranTarget, ⟨k, _⟩, _, w, taken, result⟩ := ran
      obtain ⟨rfl, _⟩ := Prod.mk.inj (Except.ok.inj result)
      exact spelled_subscript (run_spelled functions values target spelled.1 ranTarget) taken

theorem runItems_spelled (functions : ∀ name f, e.function? name = some f → f.KeepsUnits)
    (values : Scope.Spelled scope) : ∀ (items : List Formula) {vs : List Value}
      {names : List String}, Formula.spelledItems items = true →
        e.runItems scope items = .ok (vs, names) → Value.SpelledItems vs
  | [], vs, names, _, ran => by
      rw [runItems] at ran
      obtain ⟨rfl, _⟩ := Prod.mk.inj (Except.ok.inj ran)
      exact trivial
  | item :: rest, vs, names, spelled, ran => by
      rw [Formula.spelledItems, Bool.and_eq_true] at spelled
      simp only [runItems, bind_eq_ok] at ran
      obtain ⟨⟨v, _⟩, ranItem, ⟨others, _⟩, ranRest, result⟩ := ran
      obtain ⟨rfl, _⟩ := Prod.mk.inj (Except.ok.inj result)
      exact ⟨run_spelled functions values item spelled.1 ranItem,
        runItems_spelled functions values rest spelled.2 ranRest⟩

theorem runPairs_spelled (functions : ∀ name f, e.function? name = some f → f.KeepsUnits)
    (values : Scope.Spelled scope) : ∀ (items : List (Formula × Formula))
      {entries all : List (String × Value)} {names : List String}, Value.SpelledEntries entries →
        Formula.spelledPairs items = true → e.runPairs scope entries items = .ok (all, names) →
          Value.SpelledEntries all
  | [], entries, all, names, known, _, ran => by
      rw [runPairs] at ran
      obtain ⟨rfl, _⟩ := Prod.mk.inj (Except.ok.inj ran)
      exact known
  | (key, item) :: rest, entries, all, names, known, spelled, ran => by
      rw [Formula.spelledPairs, Bool.and_eq_true, Bool.and_eq_true] at spelled
      simp only [runPairs, bind_eq_ok] at ran
      obtain ⟨⟨k, _⟩, _, ⟨v, _⟩, ranItem, ⟨whole, _⟩, ranRest, result⟩ := ran
      obtain ⟨rfl, _⟩ := Prod.mk.inj (Except.ok.inj result)
      exact runPairs_spelled functions values rest
        (Value.spelledEntries_put (run_spelled functions values item spelled.1.2 ranItem) known)
        spelled.2 ranRest

end

theorem keepsUnits_default (name : String) (f : Function)
    (found : default.function? name = some f) : f.KeepsUnits := by
  have builtin : builtin? name = some f := by
    simpa [function?, default] using found
  exact keepsUnits_builtin builtin

/-- The value of a formula with the built-in functions. -/
theorem spelled_of_evaluate {f : Formula} {r : Evaluation} (values : Scope.Spelled scope)
    (spelled : f.spelled = true) (evaluated : default.evaluateFormula f scope = .ok r) :
    r.value.Spelled := by
  obtain ⟨⟨v, names⟩, ran, result⟩ := bind_eq_ok.1 evaluated
  rw [← Except.ok.inj result]
  exact run_spelled keepsUnits_default values f spelled ran

end Evaluator

end Formula

end PulseSequencer
