import PulseSequencer.Proofs.Formula.Enclosure
import PulseSequencer.Proofs.Formula.Numerals
import PulseSequencer.Proofs.Formula.Precedence

/-
# PulseSequencer.Proofs.Formula.Rendering -- written formulas are read back

`Formula.render` writes a formula with blanks between its tokens and with no other
parentheses than those that the levels of its operators call for.  The parser reads it
back: `parse_render`.
-/

namespace PulseSequencer

set_option autoImplicit false

open Formula (Level Token Symbol Located)

/-! ## Writing a formula -/

/-- What is left to a writer: the spelling of a power, and whether a sign in an exponent
stands without parentheses. -/
structure Style where
  doubleStar : Bool
  bareSign : Bool

def UnaryOp.level : UnaryOp → Level
  | .not => .negation
  | .neg | .plus => .sign

def UnaryOp.token : UnaryOp → Token
  | .not => .name "not"
  | .neg => .symbol .minus
  | .plus => .symbol .plus

def BinaryOp.level : BinaryOp → Level
  | .or => .disjunction
  | .and => .conjunction
  | .eq | .ne | .lt | .le | .gt | .ge => .comparison
  | .add | .sub => .sum
  | .mul | .div | .rem => .product
  | .pow => .power

def BinaryOp.token (style : Style) : BinaryOp → Token
  | .or => .name "or"
  | .and => .name "and"
  | .eq => .symbol .equal
  | .ne => .symbol .notEqual
  | .lt => .symbol .less
  | .le => .symbol .lessEqual
  | .gt => .symbol .greater
  | .ge => .symbol .greaterEqual
  | .add => .symbol .plus
  | .sub => .symbol .minus
  | .mul => .symbol .star
  | .div => .symbol .slash
  | .rem => .symbol .percent
  | .pow => .symbol (if style.doubleStar then .doubleStar else .caret)

/-- The level on which the right operand of an operator is written.  A power is its own
right operand. -/
def BinaryOp.rightLevel (style : Style) : BinaryOp → Level
  | .pow => if style.bareSign then .sign else .power
  | op => op.level.rightOperand

namespace Formula

/-- Tokens of one level where those of another are wanted. -/
def enclosed (own wanted : Level) (ts : List Token) : List Token :=
  if own.rank < wanted.rank then .symbol .openParen :: (ts ++ [.symbol .closeParen]) else ts

mutual

/-- The tokens of a formula where one of some level is wanted. -/
def tokens (style : Style) : Formula → Level → List Token
  | .int _ n, _ => [.int n]
  | .name _ s, _ => [.name s]
  | .list _ items, _ => .symbol .openBracket :: tokensOfItems style .closeBracket items
  | .dict _ entries, _ => .symbol .openBrace :: tokensOfPairs style entries
  | .call _ s args, _ => .name s :: .symbol .openParen :: tokensOfItems style .closeParen args
  | .index _ target key, wanted => enclosed .subscript wanted
      (tokens style target .subscript ++
        .symbol .openBracket :: (tokens style key .disjunction ++ [.symbol .closeBracket]))
  | .unary _ op operand, wanted =>
      enclosed op.level wanted (op.token :: tokens style operand op.level)
  | .binary _ op left right, wanted => enclosed op.level wanted
      (tokens style left op.level.leftOperand ++
        op.token style :: tokens style right (op.rightLevel style))
  | .float .., _ | .quantity .., _ | .text .., _ => []

/-- Items between commas, and the closing bracket. -/
def tokensOfItems (style : Style) (close : Symbol) : List Formula → List Token
  | [] => [.symbol close]
  | item :: rest => tokens style item .disjunction ++
      match rest with
      | [] => [.symbol close]
      | _ :: _ => .symbol .comma :: tokensOfItems style close rest

/-- Keys and values between commas, and the closing brace. -/
def tokensOfPairs (style : Style) : List (Formula × Formula) → List Token
  | [] => [.symbol .closeBrace]
  | (key, value) :: rest => tokens style key .disjunction ++
      .symbol .colon :: (tokens style value .disjunction ++
        match rest with
        | [] => [.symbol .closeBrace]
        | _ :: _ => .symbol .comma :: tokensOfPairs style rest)

end

/-- How a token is spelled. -/
def Token.spelling : Token → String
  | .int n => toString n
  | .name s => s
  | .symbol s => s.text
  | .float _ | .text _ | .finish => ""

/-- The text of a formula: its tokens with blanks between them. -/
def render (style : Style) (f : Formula) : String :=
  " ".intercalate ((tokens style f .disjunction).map Token.spelling)

/-! ## Formulas that can be written -/

/-- A name as the lexer reads one. -/
def IsWord (s : String) : Prop :=
  ∃ c rest, s.toList = c :: rest ∧ startsName c = true ∧ isNamePart c = true ∧
    ∀ d ∈ rest, isNamePart d = true

mutual

/-- Formulas over integers of 64 bits without a sign and names that are no operators. -/
def Writable : Formula → Prop
  | .int _ n => 0 ≤ n ∧ n < pow2 63
  | .name _ s => IsWord s ∧ isKeyword s = false
  | .list _ items => WritableItems items
  | .dict _ entries => WritablePairs entries
  | .call _ s args => (IsWord s ∧ isKeyword s = false) ∧ WritableItems args
  | .index _ target key => Writable target ∧ Writable key
  | .unary _ _ operand => Writable operand
  | .binary _ _ left right => Writable left ∧ Writable right
  | .float .. | .quantity .. | .text .. => False

def WritableItems : List Formula → Prop
  | [] => True
  | item :: rest => Writable item ∧ WritableItems rest

def WritablePairs : List (Formula × Formula) → Prop
  | [] => True
  | (key, value) :: rest => Writable key ∧ Writable value ∧ WritablePairs rest

end

mutual

/-- A formula without the places of its nodes. -/
def unplaced : Formula → Formula
  | .int _ n => .int 0 n
  | .float _ x => .float 0 x
  | .quantity _ magnitude unit => .quantity 0 magnitude unit
  | .text _ s => .text 0 s
  | .name _ s => .name 0 s
  | .list _ items => .list 0 (unplacedItems items)
  | .dict _ entries => .dict 0 (unplacedPairs entries)
  | .unary _ op operand => .unary 0 op (unplaced operand)
  | .binary _ op left right => .binary 0 op (unplaced left) (unplaced right)
  | .call _ s args => .call 0 s (unplacedItems args)
  | .index _ target key => .index 0 (unplaced target) (unplaced key)

def unplacedItems : List Formula → List Formula
  | [] => []
  | item :: rest => unplaced item :: unplacedItems rest

def unplacedPairs : List (Formula × Formula) → List (Formula × Formula)
  | [] => []
  | (key, value) :: rest => (unplaced key, unplaced value) :: unplacedPairs rest

end

/-! ## The tokens are a formula -/

section Reads

variable {P : String → Prop} {f : Formula} {own wanted : Level} {style : Style}
  {ts : List Located} {us : List Token}

theorem Level.rank_injective {a b : Level} (same : a.rank = b.rank) : a = b := by
  cases a <;> cases b <;> first | rfl | cases same

/-- A formula of a level is one of every looser level. -/
theorem Reads.loosen (reads : Reads P (.formula own f) ts) (le : wanted.rank ≤ own.rank) :
    Reads P (.formula wanted f) ts := by
  obtain ⟨k, apart⟩ := Nat.exists_eq_add_of_le le
  induction k generalizing wanted with
  | zero => exact Level.rank_injective apart ▸ reads
  | succ k ih =>
      have loose : wanted ≠ .atom := by
        rintro rfl
        have bound : own.rank ≤ 9 := by cases own <;> decide
        rw [apart, show Level.atom.rank = 9 from rfl] at bound
        omega
      have next := Level.rank_next loose
      exact .tighter loose (ih (by omega) (by omega))

/-- Tokens with places are read as a formula that differs from `f` in its places only. -/
def ReadAs (level : Level) (f : Formula) (us : List Token) : Prop :=
  ∀ ts : List Located, ts.map Located.token = us →
    ∃ g, Reads (isKeyword · = false) (.formula level g) ts ∧ unplaced g = unplaced f

def ItemsReadAs (close : Symbol) (fs : List Formula) (us : List Token) : Prop :=
  ∀ ts : List Located, ts.map Located.token = us →
    ∃ gs, Reads (isKeyword · = false) (.items close gs) ts ∧ unplacedItems gs = unplacedItems fs

def PairsReadAs (entries : List (Formula × Formula)) (us : List Token) : Prop :=
  ∀ ts : List Located, ts.map Located.token = us →
    ∃ gs, Reads (isKeyword · = false) (.pairs gs) ts ∧ unplacedPairs gs = unplacedPairs entries

theorem eq_cons_of_map {t : Token} (same : ts.map Located.token = t :: us) :
    ∃ offset rest, ts = ⟨t, offset⟩ :: rest ∧ rest.map Located.token = us := by
  obtain ⟨⟨token, offset⟩, rest, rfl, rfl, rest'⟩ := List.map_eq_cons_iff.1 same
  exact ⟨offset, rest, rfl, rest'⟩

theorem readAs_atom {g : Nat → Formula} {t : Token}
    (reads : ∀ offset, Reads (isKeyword · = false) (.formula .atom (g offset)) [⟨t, offset⟩] ∧
      unplaced (g offset) = unplaced f) : ReadAs wanted f [t] := by
  intro ts same
  obtain ⟨offset, rest, rfl, none'⟩ := eq_cons_of_map same
  obtain rfl := List.map_eq_nil_iff.1 none'
  exact ⟨g offset, (reads offset).1.loosen (by cases wanted <;> decide), (reads offset).2⟩

/-- Parentheses stand where the level of a formula is too loose. -/
theorem readAs_enclosed (inner : ReadAs own f us) : ReadAs wanted f (enclosed own wanted us) := by
  intro ts same
  unfold enclosed at same
  split at same
  · obtain ⟨opens, rest, rfl, behind⟩ := eq_cons_of_map same
    obtain ⟨body, tail, rfl, inside, last⟩ := List.map_eq_append_iff.1 behind
    obtain ⟨closes, rest, rfl, none'⟩ := eq_cons_of_map last
    obtain rfl := List.map_eq_nil_iff.1 none'
    obtain ⟨g, reads, is⟩ := inner body inside
    have group : Reads _ (.formula .atom g) _ :=
      .group opens closes (reads.loosen (by cases own <;> decide))
    exact ⟨g, group.loosen (by cases wanted <;> decide), is⟩
  · obtain ⟨g, reads, is⟩ := inner ts same
    exact ⟨g, reads.loosen (by omega), is⟩

theorem prefixOperator?_token (op : UnaryOp) :
    op.level.prefixOperator? op.token = some op := by
  cases op <;> rfl

theorem operator?_token (op : BinaryOp) :
    op.level.operator? (op.token style) = some op := by
  cases op <;> first
    | rfl
    | (rw [BinaryOp.token]
       split <;> rfl)

theorem rank_rightLevel (op : BinaryOp) :
    op.level.rightOperand.rank ≤ (op.rightLevel style).rank := by
  cases op <;> first
    | exact Nat.le_refl _
    | (rw [BinaryOp.rightLevel]
       split <;> decide)

theorem readAs_unary {offset : Nat} {op : UnaryOp} (inner : ReadAs op.level f us) :
    ReadAs op.level (.unary offset op f) (op.token :: us) := by
  intro ts same
  obtain ⟨place, rest, rfl, behind⟩ := eq_cons_of_map same
  obtain ⟨g, reads, is⟩ := inner rest behind
  refine ⟨_, .unary place (prefixOperator?_token op) reads, ?_⟩
  rw [unplaced, unplaced, is]

theorem readAs_binary {offset : Nat} {op : BinaryOp} {left right : Formula} {vs : List Token}
    (first' : ReadAs op.level.leftOperand left us)
    (behind : ReadAs (op.rightLevel style) right vs) :
    ReadAs op.level (.binary offset op left right) (us ++ op.token style :: vs) := by
  intro ts same
  obtain ⟨before, tail, rfl, ahead, onward⟩ := List.map_eq_append_iff.1 same
  obtain ⟨place, rest, rfl, after⟩ := eq_cons_of_map onward
  obtain ⟨g, reads, is⟩ := first' before ahead
  obtain ⟨h, reads', is'⟩ := behind rest after
  refine ⟨_, .binary place (operator?_token op) reads
    (reads'.loosen (rank_rightLevel op)), ?_⟩
  rw [unplaced, unplaced, is, is']

theorem readAs_index {offset : Nat} {target key : Formula} {vs : List Token}
    (first' : ReadAs .subscript target us) (inside : ReadAs .disjunction key vs) :
    ReadAs .subscript (.index offset target key)
      (us ++ .symbol .openBracket :: (vs ++ [.symbol .closeBracket])) := by
  intro ts same
  obtain ⟨before, tail, rfl, ahead, onward⟩ := List.map_eq_append_iff.1 same
  obtain ⟨place, rest, rfl, after⟩ := eq_cons_of_map onward
  obtain ⟨middle, tail, rfl, within, last⟩ := List.map_eq_append_iff.1 after
  obtain ⟨closes, rest, rfl, none'⟩ := eq_cons_of_map last
  obtain rfl := List.map_eq_nil_iff.1 none'
  obtain ⟨g, reads, is⟩ := first' before ahead
  obtain ⟨h, reads', is'⟩ := inside middle within
  refine ⟨_, .index place closes reads reads', ?_⟩
  rw [unplaced, unplaced, is, is']

theorem itemsReadAs_nil {close : Symbol} : ItemsReadAs close [] [.symbol close] := by
  intro ts same
  obtain ⟨closes, rest, rfl, none'⟩ := eq_cons_of_map same
  obtain rfl := List.map_eq_nil_iff.1 none'
  exact ⟨[], .noItems close closes, rfl⟩

theorem itemsReadAs_last {close : Symbol} (inner : ReadAs .disjunction f us) :
    ItemsReadAs close [f] (us ++ [.symbol close]) := by
  intro ts same
  obtain ⟨body, tail, rfl, ahead, last⟩ := List.map_eq_append_iff.1 same
  obtain ⟨closes, rest, rfl, none'⟩ := eq_cons_of_map last
  obtain rfl := List.map_eq_nil_iff.1 none'
  obtain ⟨g, reads, is⟩ := inner body ahead
  refine ⟨[g], .lastItem closes reads, ?_⟩
  rw [unplacedItems, unplacedItems, is]
  rfl

theorem itemsReadAs_cons {close : Symbol} {fs : List Formula} {vs : List Token}
    (inner : ReadAs .disjunction f us) (others : ItemsReadAs close fs vs) :
    ItemsReadAs close (f :: fs) (us ++ .symbol .comma :: vs) := by
  intro ts same
  obtain ⟨body, tail, rfl, ahead, onward⟩ := List.map_eq_append_iff.1 same
  obtain ⟨comma, rest, rfl, after⟩ := eq_cons_of_map onward
  obtain ⟨g, reads, is⟩ := inner body ahead
  obtain ⟨gs, reads', is'⟩ := others rest after
  refine ⟨g :: gs, .item comma reads reads', ?_⟩
  rw [unplacedItems, unplacedItems, is, is']

theorem pairsReadAs_nil : PairsReadAs [] [.symbol .closeBrace] := by
  intro ts same
  obtain ⟨closes, rest, rfl, none'⟩ := eq_cons_of_map same
  obtain rfl := List.map_eq_nil_iff.1 none'
  exact ⟨[], .noPairs closes, rfl⟩

theorem pairsReadAs_last {value : Formula} {vs : List Token} (first' : ReadAs .disjunction f us)
    (second : ReadAs .disjunction value vs) :
    PairsReadAs [(f, value)] (us ++ .symbol .colon :: (vs ++ [.symbol .closeBrace])) := by
  intro ts same
  obtain ⟨body, tail, rfl, ahead, onward⟩ := List.map_eq_append_iff.1 same
  obtain ⟨colon, rest, rfl, after⟩ := eq_cons_of_map onward
  obtain ⟨body', tail, rfl, within, last⟩ := List.map_eq_append_iff.1 after
  obtain ⟨closes, rest, rfl, none'⟩ := eq_cons_of_map last
  obtain rfl := List.map_eq_nil_iff.1 none'
  obtain ⟨g, reads, is⟩ := first' body ahead
  obtain ⟨h, reads', is'⟩ := second body' within
  refine ⟨[(g, h)], .lastPair colon closes reads reads', ?_⟩
  rw [unplacedPairs, unplacedPairs, is, is']
  rfl

theorem pairsReadAs_cons {value : Formula} {entries : List (Formula × Formula)}
    {vs ws : List Token} (first' : ReadAs .disjunction f us) (second : ReadAs .disjunction value vs)
    (others : PairsReadAs entries ws) :
    PairsReadAs ((f, value) :: entries)
      (us ++ .symbol .colon :: (vs ++ .symbol .comma :: ws)) := by
  intro ts same
  obtain ⟨body, tail, rfl, ahead, onward⟩ := List.map_eq_append_iff.1 same
  obtain ⟨colon, rest, rfl, after⟩ := eq_cons_of_map onward
  obtain ⟨body', tail, rfl, within, last⟩ := List.map_eq_append_iff.1 after
  obtain ⟨comma, rest, rfl, further⟩ := eq_cons_of_map last
  obtain ⟨g, reads, is⟩ := first' body ahead
  obtain ⟨h, reads', is'⟩ := second body' within
  obtain ⟨gs, reads'', is''⟩ := others rest further
  refine ⟨(g, h) :: gs, .pair colon comma reads reads' reads'', ?_⟩
  rw [unplacedPairs, unplacedPairs, is, is', is'']

theorem readAs_call {offset : Nat} {s : String} {args : List Formula}
    (word : isKeyword s = false) (inside : ItemsReadAs .closeParen args us) :
    ReadAs wanted (.call offset s args) (.name s :: .symbol .openParen :: us) := by
  intro ts same
  obtain ⟨place, rest, rfl, onward⟩ := eq_cons_of_map same
  obtain ⟨opens, rest, rfl, after⟩ := eq_cons_of_map onward
  obtain ⟨gs, reads, is⟩ := inside rest after
  have call : Reads _ (.formula .atom (.call place s gs)) _ := .call place opens word reads
  refine ⟨_, call.loosen (by cases wanted <;> decide), ?_⟩
  rw [unplaced, unplaced, is]

theorem readAs_list {offset : Nat} {items : List Formula}
    (inside : ItemsReadAs .closeBracket items us) :
    ReadAs wanted (.list offset items) (.symbol .openBracket :: us) := by
  intro ts same
  obtain ⟨place, rest, rfl, after⟩ := eq_cons_of_map same
  obtain ⟨gs, reads, is⟩ := inside rest after
  have list : Reads _ (.formula .atom (.list place gs)) _ := .list place reads
  refine ⟨_, list.loosen (by cases wanted <;> decide), ?_⟩
  rw [unplaced, unplaced, is]

theorem readAs_dict {offset : Nat} {entries : List (Formula × Formula)}
    (inside : PairsReadAs entries us) :
    ReadAs wanted (.dict offset entries) (.symbol .openBrace :: us) := by
  intro ts same
  obtain ⟨place, rest, rfl, after⟩ := eq_cons_of_map same
  obtain ⟨gs, reads, is⟩ := inside rest after
  have dict : Reads _ (.formula .atom (.dict place gs)) _ := .dict place reads
  refine ⟨_, dict.loosen (by cases wanted <;> decide), ?_⟩
  rw [unplaced, unplaced, is]

end Reads

mutual

/-- **The tokens of a formula are that formula**, wherever they are written. -/
theorem readAs_tokens (style : Style) : ∀ (f : Formula) (wanted : Level), Writable f →
    ReadAs wanted f (tokens style f wanted)
  | .int _ n, _, _ => readAs_atom fun _ => ⟨.number (.int n), rfl⟩
  | .name _ _, _, writable => readAs_atom fun offset => ⟨.name offset writable.2, rfl⟩
  | .list _ items, _, writable => readAs_list (itemsReadAs_tokens style .closeBracket items writable)
  | .dict _ entries, _, writable => readAs_dict (pairsReadAs_tokens style entries writable)
  | .call _ _ args, _, writable =>
      readAs_call writable.1.2 (itemsReadAs_tokens style .closeParen args writable.2)
  | .index _ target key, _, writable => readAs_enclosed
      (readAs_index (readAs_tokens style target _ writable.1) (readAs_tokens style key _ writable.2))
  | .unary _ _ operand, _, writable =>
      readAs_enclosed (readAs_unary (readAs_tokens style operand _ writable))
  | .binary _ _ left right, _, writable => readAs_enclosed
      (readAs_binary (readAs_tokens style left _ writable.1) (readAs_tokens style right _ writable.2))
  | .float .., _, writable | .quantity .., _, writable | .text .., _, writable => writable.elim

theorem itemsReadAs_tokens (style : Style) (close : Symbol) : ∀ items : List Formula,
    WritableItems items → ItemsReadAs close items (tokensOfItems style close items)
  | [], _ => itemsReadAs_nil
  | [item], writable => itemsReadAs_last (readAs_tokens style item .disjunction writable.1)
  | item :: next :: rest, writable =>
      itemsReadAs_cons (readAs_tokens style item .disjunction writable.1)
        (itemsReadAs_tokens style close (next :: rest) writable.2)

theorem pairsReadAs_tokens (style : Style) : ∀ entries : List (Formula × Formula),
    WritablePairs entries → PairsReadAs entries (tokensOfPairs style entries)
  | [], _ => pairsReadAs_nil
  | [(key, value)], writable => pairsReadAs_last
      (readAs_tokens style key .disjunction writable.1)
      (readAs_tokens style value .disjunction writable.2.1)
  | (key, value) :: next :: rest, writable => pairsReadAs_cons
      (readAs_tokens style key .disjunction writable.1)
      (readAs_tokens style value .disjunction writable.2.1)
      (pairsReadAs_tokens style (next :: rest) writable.2.2)

end

/-! ## The text has these tokens -/

/-- Tokens that are written as they are read. -/
inductive Token.Spelled : Token → Prop
  | int {n : Int} (low : 0 ≤ n) (high : n < pow2 63) : Spelled (.int n)
  | name {s : String} (word : IsWord s) : Spelled (.name s)
  | symbol (s : Symbol) : Spelled (.symbol s)

theorem spelled_enclosed {own wanted : Level} {ts : List Token} (spelled : ∀ t ∈ ts, t.Spelled) :
    ∀ t ∈ enclosed own wanted ts, t.Spelled := by
  unfold enclosed
  split
  · simp only [List.forall_mem_cons, List.forall_mem_append, List.not_mem_nil, false_implies,
      implies_true, and_true]
    exact ⟨.symbol _, spelled, .symbol _⟩
  · exact spelled

theorem UnaryOp.spelled_token (op : UnaryOp) : op.token.Spelled := by
  cases op with
  | not => exact .name ⟨'n', ['o', 't'], rfl, rfl, rfl, List.all_eq_true.1 rfl⟩
  | neg | plus => exact .symbol _

theorem BinaryOp.spelled_token (style : Style) (op : BinaryOp) : (op.token style).Spelled := by
  cases op with
  | and => exact .name ⟨'a', ['n', 'd'], rfl, rfl, rfl, List.all_eq_true.1 rfl⟩
  | or => exact .name ⟨'o', ['r'], rfl, rfl, rfl, List.all_eq_true.1 rfl⟩
  | _ => exact .symbol _

mutual

theorem spelled_tokens (style : Style) : ∀ (f : Formula) (wanted : Level), Writable f →
    ∀ t ∈ tokens style f wanted, t.Spelled
  | .int _ _, _, writable => List.forall_mem_singleton.2 (.int writable.1 writable.2)
  | .name _ _, _, writable => List.forall_mem_singleton.2 (.name writable.1)
  | .list _ items, _, writable =>
      List.forall_mem_cons.2 ⟨.symbol _, spelled_tokensOfItems style .closeBracket items writable⟩
  | .dict _ entries, _, writable =>
      List.forall_mem_cons.2 ⟨.symbol _, spelled_tokensOfPairs style entries writable⟩
  | .call _ _ args, _, writable =>
      List.forall_mem_cons.2 ⟨.name writable.1.1, List.forall_mem_cons.2
        ⟨.symbol _, spelled_tokensOfItems style .closeParen args writable.2⟩⟩
  | .index _ target key, _, writable => spelled_enclosed <| List.forall_mem_append.2
      ⟨spelled_tokens style target _ writable.1, List.forall_mem_cons.2
        ⟨.symbol _, List.forall_mem_append.2
          ⟨spelled_tokens style key _ writable.2, List.forall_mem_singleton.2 (.symbol _)⟩⟩⟩
  | .unary _ op operand, _, writable => spelled_enclosed <| List.forall_mem_cons.2
      ⟨UnaryOp.spelled_token op, spelled_tokens style operand _ writable⟩
  | .binary _ op left right, _, writable => spelled_enclosed <| List.forall_mem_append.2
      ⟨spelled_tokens style left _ writable.1, List.forall_mem_cons.2
        ⟨BinaryOp.spelled_token style op, spelled_tokens style right _ writable.2⟩⟩
  | .float .., _, writable | .quantity .., _, writable | .text .., _, writable => writable.elim

theorem spelled_tokensOfItems (style : Style) (close : Symbol) : ∀ items : List Formula,
    WritableItems items → ∀ t ∈ tokensOfItems style close items, t.Spelled
  | [], _ => List.forall_mem_singleton.2 (.symbol _)
  | [item], writable => List.forall_mem_append.2
      ⟨spelled_tokens style item _ writable.1, List.forall_mem_singleton.2 (.symbol _)⟩
  | item :: next :: rest, writable => List.forall_mem_append.2
      ⟨spelled_tokens style item _ writable.1, List.forall_mem_cons.2
        ⟨.symbol _, spelled_tokensOfItems style close (next :: rest) writable.2⟩⟩

theorem spelled_tokensOfPairs (style : Style) : ∀ entries : List (Formula × Formula),
    WritablePairs entries → ∀ t ∈ tokensOfPairs style entries, t.Spelled
  | [], _ => List.forall_mem_singleton.2 (.symbol _)
  | [(key, value)], writable => List.forall_mem_append.2
      ⟨spelled_tokens style key _ writable.1, List.forall_mem_cons.2
        ⟨.symbol _, List.forall_mem_append.2
          ⟨spelled_tokens style value _ writable.2.1, List.forall_mem_singleton.2 (.symbol _)⟩⟩⟩
  | (key, value) :: next :: rest, writable => List.forall_mem_append.2
      ⟨spelled_tokens style key _ writable.1, List.forall_mem_cons.2
        ⟨.symbol _, List.forall_mem_append.2
          ⟨spelled_tokens style value _ writable.2.1, List.forall_mem_cons.2
            ⟨.symbol _, spelled_tokensOfPairs style (next :: rest) writable.2.2⟩⟩⟩⟩

end

section Spelling

variable {c : Char} {cs more : List Char} {t : Token}

/-- What follows a token in a written formula: a blank, or nothing. -/
def BlankNext (more : List Char) : Prop := ∀ d, more.head? = some d → d = ' '

theorem lexeme_int {k : Nat} (high : k < pow2 63) (shape : Nat.toDigits 10 k = c :: cs)
    (next : BlankNext more) : lexeme c (cs ++ more) = .ok (.int k, cs.length) := by
  have digits : ∀ d ∈ c :: cs, d.isDigit = true := fun d there =>
    Nat.isDigit_of_mem_toDigits (by decide) (by decide) (shape ▸ there)
  obtain ⟨digit, behind⟩ := List.forall_mem_cons.1 digits
  have read : Number.readInt64? (c :: cs) = some (k : Int) := by
    rw [← shape, ← Number.toList_ofNat]
    refine Number.readInt64?_toString ?_ (Int.ofNat_lt.2 high)
    show -(pow2 63 : Int) ≤ k
    omega
  have plain : withoutUnderscores (c :: cs) = c :: cs :=
    List.filter_eq_self.2 fun d there => decide_eq_true (ne_of_isDigit (digits d there) rfl)
  have stops : decimalExtent false more = (0, false) := by
    cases more with
    | nil => rfl
    | cons d rest =>
        obtain rfl := next d rfl
        rfl
  have decimal : numberLexeme.decimal (c :: (cs ++ more)) = .ok (.int k, cs.length) := by
    rw [numberLexeme.decimal, ← List.cons_append, decimalExtent_append digits stops]
    dsimp only
    rw [List.take_left, plain, decimalToken, if_neg Bool.false_ne_true, read]
    rfl
  rw [lexeme, startsNumber, digit, Bool.true_or, if_pos rfl]
  unfold numberLexeme
  split
  · rename_i x tail shape'
    -- behind a leading zero stands a digit or a blank, and no mark of a hexadecimal number
    have other : ¬(x = 'x' ∨ x = 'X') := by
      cases cs with
      | nil =>
          obtain rfl := next x (by rw [← List.nil_append more, shape']; rfl)
          decide
      | cons d others =>
          obtain rfl := (List.cons.inj shape').1
          have digit' := behind d (List.mem_cons_self ..)
          rintro (rfl | rfl) <;> cases digit'
    rw [if_neg other]
    exact decimal
  · exact decimal

theorem not_isDigit_of_startsName (starts : startsName c = true) : c.isDigit = false := by
  cases digit : c.isDigit with
  | false => rfl
  | true =>
      have letter : c.isAlpha = (decide ('A'.val ≤ c.val ∧ c.val ≤ 'Z'.val) ||
          (decide ('a'.val ≤ c.val) && decide (c.val ≤ 'z'.val))) := rfl
      simp only [startsName, isAscii, letter, Char.isDigit, Bool.or_eq_true, Bool.and_eq_true,
        decide_eq_true_eq, beq_iff_eq, Bool.not_eq_true', decide_eq_false_iff_not,
        UInt32.le_iff_toNat_le, ge_iff_le] at starts digit
      rcases starts with ((upper | lower) | rfl) | large
      · simp at upper digit
        omega
      · simp at lower digit
        omega
      · simp at digit
      · have small : c.toNat ≤ 57 := digit.2
        omega

/-- A blank belongs to no token. -/
theorem not_isSpace (token : startsName c = true ∨ c.isDigit = true) : isSpace c = false := by
  cases space : isSpace c with
  | false => rfl
  | true =>
      simp only [isSpace, Bool.or_eq_true, beq_iff_eq] at space
      rcases space with (((rfl | rfl) | rfl) | rfl) | rfl <;> rcases token with no | no <;> cases no

theorem lexeme_name {s : String} (shape : s.toList = c :: cs) (starts : startsName c = true)
    (part : isNamePart c = true) (parts : ∀ d ∈ cs, isNamePart d = true) (next : BlankNext more) :
    lexeme c (cs ++ more) = .ok (.name s, cs.length) := by
  have number : startsNumber c (cs ++ more) = false := by
    rw [startsNumber, not_isDigit_of_startsName starts, Bool.false_or, Bool.and_eq_false_iff]
    refine .inl (beq_eq_false_iff_ne.2 ?_)
    rintro rfl
    cases starts
  have taken : (cs ++ more).takeWhile isNamePart = cs :=
    Text.takeWhile_append_stop parts fun d there => by rw [next d there]; rfl
  unfold startsName at starts
  rw [lexeme, number, if_neg Bool.false_ne_true, if_pos starts, nameLexeme, if_pos part]
  dsimp only
  rw [taken, ← shape, String.ofList_toList]

theorem lexeme_symbol {s : Symbol} (shape : s.chars = c :: cs) (next : BlankNext more) :
    lexeme c (cs ++ more) = .ok (.symbol s, cs.length) := by
  cases s <;>
    (obtain ⟨rfl, rfl⟩ := List.cons.inj shape
     cases more with
     | nil => rfl
     | cons d rest =>
        obtain rfl := next d rfl
        rfl)

/-- The first token of a written formula. -/
theorem tokens_of_spelling (spelled : t.Spelled) (more : List Char) (next : BlankNext more)
    (offset : Nat) :
    ∃ offset', tokensFrom offset (t.spelling.toList ++ more) = (do
      let us ← tokensFrom offset' more
      return ⟨t, offset⟩ :: us) := by
  obtain ⟨c, cs, shape, solid, read⟩ : ∃ c cs, t.spelling.toList = c :: cs ∧ isSpace c = false ∧
      lexeme c (cs ++ more) = .ok (t, cs.length) := by
    cases spelled with
    | @int n low high =>
        obtain ⟨k, rfl⟩ := Int.eq_ofNat_of_zero_le low
        obtain ⟨c, cs, shape, digit⟩ := digit_of_numeral (Number.numeral_of_nat k)
        exact ⟨c, cs, (Number.toList_ofNat k).trans shape, not_isSpace (.inr digit),
          lexeme_int (Int.ofNat_lt.1 high) shape next⟩
    | name word =>
        obtain ⟨c, cs, shape, starts, part, parts⟩ := word
        exact ⟨c, cs, shape, not_isSpace (.inl starts), lexeme_name shape starts part parts next⟩
    | symbol s =>
        obtain ⟨c, cs, shape⟩ : ∃ c cs, s.chars = c :: cs := by cases s <;> exact ⟨_, _, rfl⟩
        refine ⟨c, cs, ?_, ?_, lexeme_symbol shape next⟩
        · rw [Token.spelling, Symbol.text, String.toList_ofList, shape]
        · cases s <;> (obtain ⟨rfl, rfl⟩ := List.cons.inj shape; rfl)
  refine ⟨offset + c.utf8Size + Text.byteLength ((cs ++ more).take cs.length), ?_⟩
  rw [shape, List.cons_append, tokensFrom, solid, if_neg Bool.false_ne_true, read]
  dsimp only
  rw [List.drop_left]

/-- **Tokens with blanks between them are read back.** -/
theorem tokens_of_spellings (ts : List Token) (spelled : ∀ t ∈ ts, t.Spelled) (offset : Nat) :
    ∃ located last,
      tokensFrom offset ([' '].intercalate (ts.map fun t => t.spelling.toList)) =
        .ok (located ++ [⟨.finish, last⟩]) ∧ located.map Located.token = ts := by
  induction ts generalizing offset with
  | nil => exact ⟨[], offset, by rw [List.map_nil, List.intercalate_nil, tokensFrom]; rfl, rfl⟩
  | cons t rest ih =>
      obtain ⟨here, behind⟩ := List.forall_mem_cons.1 spelled
      cases rest with
      | nil =>
          obtain ⟨offset', ran⟩ := tokens_of_spelling here [] (fun d none' => by cases none') offset
          refine ⟨[⟨t, offset⟩], offset', ?_, rfl⟩
          rw [List.map_singleton, List.intercalate_singleton, ← List.append_nil t.spelling.toList,
            ran, tokensFrom]
          rfl
      | cons u others =>
          obtain ⟨offset', ran⟩ := tokens_of_spelling here
            (' ' :: [' '].intercalate ((u :: others).map fun t => t.spelling.toList))
            (fun d blank => (Option.some.inj blank).symm) offset
          obtain ⟨located, last, more, same⟩ := ih behind (offset' + ' '.utf8Size)
          refine ⟨⟨t, offset⟩ :: located, last, ?_, by rw [List.map_cons, same]⟩
          rw [List.map_cons] at ran more
          rw [List.map_cons, List.map_cons, List.intercalate_cons_cons, List.append_assoc,
            List.singleton_append, ran, tokensFrom, if_pos (by decide), more]
          rfl

end Spelling

/-- **A written formula is read back.**  Whatever spelling of powers and of signs in
exponents is chosen, the parser returns the formula that was written, up to the places of
its nodes. -/
theorem parse_render (style : Style) {f : Formula} (writable : Writable f) :
    ∃ g, parse (render style f) = .ok g ∧ unplaced g = unplaced f := by
  obtain ⟨ts, last, cut, same⟩ := tokens_of_spellings (tokens style f .disjunction)
    (spelled_tokens style f .disjunction writable) 0
  obtain ⟨g, reads, is⟩ := readAs_tokens style f .disjunction writable ts same
  have tokens : tokenize (render style f) = .ok (ts ++ [⟨.finish, last⟩]) := by
    rw [tokenize, render, String.toList_intercalate, List.map_map]
    exact cut
  exact ⟨g, parse_of_reads (fun _ word => word) tokens reads, is⟩

theorem parse_render_mixed :
    let p := Formula.name 0 "p"
    let power := Formula.binary 0 .pow (.unary 0 .neg p)
      (.binary 0 .pow (.name 0 "q") (.unary 0 .neg (.int 0 2)))
    let difference := Formula.binary 0 .sub (.int 0 1)
      (.binary 0 .add (.int 0 2) (.index 0 (.call 0 "f" [p, .list 0 []]) (.int 0 0)))
    let f := Formula.binary 0 .or (.unary 0 .not (.binary 0 .lt power difference))
      (.binary 0 .eq (.binary 0 .eq p p) (.dict 0 [(p, .int 0 3)]))
    Writable f ∧
      render ⟨true, true⟩ f =
        "not ( - p ) ** q ** - 2 < 1 - ( 2 + f ( p , [ ] ) [ 0 ] ) or ( p == p ) == \x7b p : 3 \x7d" ∧
      ∃ g, parse (render ⟨true, true⟩ f) = .ok g ∧ unplaced g = unplaced f := by
  intro p power difference f
  have words : IsWord "p" ∧ IsWord "q" ∧ IsWord "f" :=
    ⟨⟨'p', [], rfl, rfl, rfl, by simp⟩, ⟨'q', [], rfl, rfl, rfl, by simp⟩,
      ⟨'f', [], rfl, rfl, rfl, by simp⟩⟩
  have writable : Writable f := by
    simp only [f, power, difference, p, Writable, WritableItems, WritablePairs, words]
    decide
  exact ⟨writable, by decide, parse_render ⟨true, true⟩ writable⟩

end Formula

end PulseSequencer
