import PulseSequencer.Formula.Basic
import PulseSequencer.Formula.Lexer

/-
# PulseSequencer.Formula.Parser -- from tokens to the tree

Operators bind, loosest first: `or`, `and`, `not`, comparisons (which do not
chain), sums, products, signs, powers (to the right), subscripts and calls.  Each
level is parsed by `parseLevel`, which hands on to the next tighter one.
-/

namespace PulseSequencer.Formula

set_option autoImplicit false

/-- The levels of binding, loosest first. -/
inductive Level where
  | disjunction | conjunction | negation | comparison | sum | product
  | sign | power | subscript | atom
deriving Repr, DecidableEq

/-- The operator that a token is on a level of binary operators. -/
def Level.operator? : Level → Token → Option BinaryOp
  | .disjunction, .name "or" => some .or
  | .conjunction, .name "and" => some .and
  | .comparison, .symbol .equal => some .eq
  | .comparison, .symbol .notEqual => some .ne
  | .comparison, .symbol .less => some .lt
  | .comparison, .symbol .lessEqual => some .le
  | .comparison, .symbol .greater => some .gt
  | .comparison, .symbol .greaterEqual => some .ge
  | .sum, .symbol .plus => some .add
  | .sum, .symbol .minus => some .sub
  | .product, .symbol .star => some .mul
  | .product, .symbol .slash => some .div
  | .product, .symbol .percent => some .rem
  | .power, .symbol .caret => some .pow
  | .power, .symbol .doubleStar => some .pow
  | _, _ => none

/-- The prefix operator that a token is on the levels that have one. -/
def Level.prefixOperator? : Level → Token → Option UnaryOp
  | .negation, .name "not" => some .not
  | .sign, .symbol .minus => some .neg
  | .sign, .symbol .plus => some .plus
  | _, _ => none

/-- The next tighter level. -/
def Level.next : Level → Level
  | .disjunction => .conjunction
  | .conjunction => .negation
  | .negation => .comparison
  | .comparison => .sum
  | .sum => .product
  | .product => .sign
  | .sign => .power
  | .power => .subscript
  | .subscript => .atom
  | .atom => .atom

abbrev Parsed (α : Type) := α × List Located

/-- The first token; an exhausted list stands at its end mark. -/
def first : List Located → Located
  | [] => ⟨.finish, 0⟩
  | t :: _ => t

def unexpected {α : Type} (ts : List Located) : Except FormulaError α :=
  .error (.malformed (first ts).offset (.unexpected (first ts).token))

def startsWith (s : Symbol) : List Located → Bool
  | ⟨.symbol t, _⟩ :: _ => s == t
  | _ => false

/-- Steps over a symbol that has to stand here. -/
def expect (s : Symbol) (ts : List Located) : Except FormulaError (List Located) :=
  match ts with
  | ⟨.symbol t, offset⟩ :: rest =>
      if s = t then .ok rest else .error (.malformed offset (.expected s))
  | _ => .error (.malformed (first ts).offset (.expected s))

def isKeyword (name : String) : Bool := name == "and" || name == "or" || name == "not"

/-- A number, or a quantity if a unit follows it. -/
def withUnit (magnitude : Float) (bare : Formula) (offset : Nat) (ts : List Located) :
    Except FormulaError (Parsed Formula) :=
  match ts with
  | ⟨.name symbol, unitOffset⟩ :: rest =>
      if isKeyword symbol then .ok (bare, ts)
      else match PhysicalUnit.parse symbol with
        | .ok unit => .ok (.quantity offset magnitude unit, rest)
        | .error _ => .error (.malformed unitOffset (.unknownUnit symbol))
  | _ => .ok (bare, ts)

/-- After an item of a sequence comes its end, or a comma. -/
def afterItem (close : Symbol) (ts : List Located) : Except FormulaError (List Located) :=
  if startsWith close ts then .ok ts else expect .comma ts

/- The number bounds the depth of the recursion; `parse` starts with more than any
list of tokens can use. -/
mutual

def parseLevel : Nat → Level → List Located → Except FormulaError (Parsed Formula)
  | 0, _, ts => unexpected ts
  | fuel + 1, .disjunction, ts => do
      let (left, ts) ← parseLevel fuel .conjunction ts
      parseMore fuel .disjunction left ts
  | fuel + 1, .conjunction, ts => do
      let (left, ts) ← parseLevel fuel .negation ts
      parseMore fuel .conjunction left ts
  | fuel + 1, .sum, ts => do
      let (left, ts) ← parseLevel fuel .product ts
      parseMore fuel .sum left ts
  | fuel + 1, .product, ts => do
      let (left, ts) ← parseLevel fuel .sign ts
      parseMore fuel .product left ts
  | fuel + 1, .negation, ts => parsePrefixed fuel .negation ts
  | fuel + 1, .sign, ts => parsePrefixed fuel .sign ts
  | fuel + 1, .comparison, ts => parseOnce fuel .comparison .sum ts
  | fuel + 1, .power, ts => parseOnce fuel .power .sign ts
  | fuel + 1, .subscript, ts => do
      let (target, ts) ← parseLevel fuel .atom ts
      parseSubscripts fuel target ts
  | fuel + 1, .atom, ts => parseAtom fuel ts

/-- Further operands of a level that associates to the left. -/
def parseMore : Nat → Level → Formula → List Located → Except FormulaError (Parsed Formula)
  | 0, _, _, ts => unexpected ts
  | fuel + 1, level, left, ts =>
      match level.operator? (first ts).token with
      | none => .ok (left, ts)
      | some op => do
          let (right, rest) ← parseLevel fuel level.next (ts.drop 1)
          parseMore fuel level (.binary (first ts).offset op left right) rest

/-- A level with prefix operators. -/
def parsePrefixed : Nat → Level → List Located → Except FormulaError (Parsed Formula)
  | 0, _, ts => unexpected ts
  | fuel + 1, level, ts =>
      match level.prefixOperator? (first ts).token with
      | none => parseLevel fuel level.next ts
      | some op => do
          let (operand, rest) ← parsePrefixed fuel level (ts.drop 1)
          return (.unary (first ts).offset op operand, rest)

/-- A level with at most one operator, whose right operand is on level `right`. -/
def parseOnce : Nat → Level → Level → List Located → Except FormulaError (Parsed Formula)
  | 0, _, _, ts => unexpected ts
  | fuel + 1, level, rightLevel, ts => do
      let (left, ts) ← parseLevel fuel level.next ts
      match level.operator? (first ts).token with
      | none => return (left, ts)
      | some op =>
          let (right, rest) ← parseLevel fuel rightLevel (ts.drop 1)
          return (.binary (first ts).offset op left right, rest)

def parseSubscripts : Nat → Formula → List Located → Except FormulaError (Parsed Formula)
  | 0, _, ts => unexpected ts
  | fuel + 1, target, ts =>
      match ts with
      | ⟨.symbol .openBracket, offset⟩ :: rest => do
          let (key, rest) ← parseLevel fuel .disjunction rest
          let rest ← expect .closeBracket rest
          parseSubscripts fuel (.index offset target key) rest
      | _ => .ok (target, ts)

def parseAtom : Nat → List Located → Except FormulaError (Parsed Formula)
  | 0, ts => unexpected ts
  | fuel + 1, ts =>
      match ts with
      | ⟨.int n, offset⟩ :: rest => withUnit (Float.ofInt n) (.int offset n) offset rest
      | ⟨.float x, offset⟩ :: rest => withUnit x (.float offset x) offset rest
      | ⟨.text s, offset⟩ :: rest => .ok (.text offset s, rest)
      | ⟨.name s, offset⟩ :: rest =>
          if startsWith .openParen rest then do
            let (args, rest) ← parseItems fuel .closeParen (rest.drop 1)
            return (.call offset s args, rest)
          else .ok (.name offset s, rest)
      | ⟨.symbol .openParen, _⟩ :: rest => do
          let (inner, rest) ← parseLevel fuel .disjunction rest
          let rest ← expect .closeParen rest
          return (inner, rest)
      | ⟨.symbol .openBracket, offset⟩ :: rest => do
          let (items, rest) ← parseItems fuel .closeBracket rest
          return (.list offset items, rest)
      | ⟨.symbol .openBrace, offset⟩ :: rest => do
          let (items, rest) ← parsePairs fuel rest
          return (.dict offset items, rest)
      | _ => unexpected ts

/-- Formulas between commas, up to and over the closing symbol. -/
def parseItems : Nat → Symbol → List Located → Except FormulaError (Parsed (List Formula))
  | 0, _, ts => unexpected ts
  | fuel + 1, close, ts =>
      if startsWith close ts then .ok ([], ts.drop 1)
      else do
        let (item, ts) ← parseLevel fuel .disjunction ts
        let ts ← afterItem close ts
        let (items, ts) ← parseItems fuel close ts
        return (item :: items, ts)

/-- Keys and values between commas, up to and over the closing brace. -/
def parsePairs : Nat → List Located → Except FormulaError (Parsed (List (Formula × Formula)))
  | 0, ts => unexpected ts
  | fuel + 1, ts =>
      if startsWith .closeBrace ts then .ok ([], ts.drop 1)
      else do
        let (key, ts) ← parseLevel fuel .disjunction ts
        let ts ← expect .colon ts
        let (value, ts) ← parseLevel fuel .disjunction ts
        let ts ← afterItem .closeBrace ts
        let (pairs, ts) ← parsePairs fuel ts
        return ((key, value) :: pairs, ts)

end

/-- The whole text as one formula. -/
def parse (text : String) : Except FormulaError Formula := do
  let ts ← tokenize text
  let (formula, rest) ← parseLevel (24 * (ts.length + 1)) .disjunction ts
  match (first rest).token with
  | .finish => return formula
  | _ => unexpected rest

end PulseSequencer.Formula
