import PulseSequencer.Formula.Parser
import PulseSequencer.Proofs.Except

/-
# PulseSequencer.Proofs.Formula.Grammar -- the grammar of formulas

`Reads` says which tokens are a formula of which level, without saying how they are
read.  Whatever the parser takes off the front of its tokens is a formula in this
sense: `reads_of_parse`.
-/

namespace PulseSequencer.Formula

set_option autoImplicit false

/-! ## Operands -/

/-- The level of what stands to the left of an operator. -/
def Level.leftOperand : Level → Level
  | .comparison => .sum
  | .power => .subscript
  | level => level

/-- The level of what stands to the right of an operator. -/
def Level.rightOperand : Level → Level
  | .power => .sign
  | level => level.next

/-- The place of a level, counted from the loosest one. -/
def Level.rank : Level → Nat
  | .disjunction => 0
  | .conjunction => 1
  | .negation => 2
  | .comparison => 3
  | .sum => 4
  | .product => 5
  | .sign => 6
  | .power => 7
  | .subscript => 8
  | .atom => 9

theorem Level.rank_next {level : Level} (loose : level ≠ .atom) :
    level.next.rank = level.rank + 1 := by
  cases level <;> first | rfl | exact absurd rfl loose

/-- A level without an operator and its operands is only there for the tightest one. -/
theorem Level.loose_of_operator {level : Level} {t : Token} {op : BinaryOp}
    (found : level.operator? t = some op) : level ≠ .atom := by
  rintro rfl
  cases found

/-! ## The grammar -/

/-- The token of a number, its magnitude and its formula. -/
inductive Numeric (offset : Nat) : Token → Float → Formula → Prop
  | int (n : Int) : Numeric offset (.int n) (Float.ofInt n) (.int offset n)
  | float (x : Float) : Numeric offset (.float x) x (.float offset x)

/-- What a run of tokens can stand for. -/
inductive Part where
  | formula (level : Level) (f : Formula)
  | items (close : Symbol) (items : List Formula)
  | pairs (pairs : List (Formula × Formula))

/-- The tokens of a part of a formula, whose names and functions satisfy a predicate. -/
inductive Reads (P : String → Prop) : Part → List Located → Prop
  | number {offset : Nat} {token : Token} {magnitude : Float} {bare : Formula}
      (is : Numeric offset token magnitude bare) :
      Reads P (.formula .atom bare) [⟨token, offset⟩]
  | quantity {offset place : Nat} {token : Token} {magnitude : Float} {bare : Formula}
      {symbol : String} {unit : PhysicalUnit} (is : Numeric offset token magnitude bare)
      (word : isKeyword symbol = false) (known : PhysicalUnit.parse symbol = .ok unit) :
      Reads P (.formula .atom (.quantity offset magnitude unit))
        [⟨token, offset⟩, ⟨.name symbol, place⟩]
  | text (offset : Nat) (s : String) :
      Reads P (.formula .atom (.text offset s)) [⟨.text s, offset⟩]
  | name (offset : Nat) {s : String} (word : P s) :
      Reads P (.formula .atom (.name offset s)) [⟨.name s, offset⟩]
  | call (offset opens : Nat) {s : String} {args : List Formula} {ts : List Located} (word : P s)
      (inside : Reads P (.items .closeParen args) ts) :
      Reads P (.formula .atom (.call offset s args))
        (⟨.name s, offset⟩ :: ⟨.symbol .openParen, opens⟩ :: ts)
  | group (opens closes : Nat) {f : Formula} {ts : List Located}
      (inside : Reads P (.formula .disjunction f) ts) :
      Reads P (.formula .atom f)
        (⟨.symbol .openParen, opens⟩ :: (ts ++ [⟨.symbol .closeParen, closes⟩]))
  | list (offset : Nat) {items : List Formula} {ts : List Located}
      (inside : Reads P (.items .closeBracket items) ts) :
      Reads P (.formula .atom (.list offset items)) (⟨.symbol .openBracket, offset⟩ :: ts)
  | dict (offset : Nat) {pairs : List (Formula × Formula)} {ts : List Located}
      (inside : Reads P (.pairs pairs) ts) :
      Reads P (.formula .atom (.dict offset pairs)) (⟨.symbol .openBrace, offset⟩ :: ts)
  | index (offset closes : Nat) {target key : Formula} {ts us : List Located}
      (first : Reads P (.formula .subscript target) ts)
      (inside : Reads P (.formula .disjunction key) us) :
      Reads P (.formula .subscript (.index offset target key))
        (ts ++ ⟨.symbol .openBracket, offset⟩ :: (us ++ [⟨.symbol .closeBracket, closes⟩]))
  | unary {level : Level} {token : Token} {op : UnaryOp} (offset : Nat) {operand : Formula}
      {ts : List Located} (found : level.prefixOperator? token = some op)
      (behind : Reads P (.formula level operand) ts) :
      Reads P (.formula level (.unary offset op operand)) (⟨token, offset⟩ :: ts)
  | binary {level : Level} {token : Token} {op : BinaryOp} (offset : Nat) {left right : Formula}
      {ts us : List Located} (found : level.operator? token = some op)
      (first : Reads P (.formula level.leftOperand left) ts)
      (behind : Reads P (.formula level.rightOperand right) us) :
      Reads P (.formula level (.binary offset op left right)) (ts ++ ⟨token, offset⟩ :: us)
  | tighter {level : Level} {f : Formula} {ts : List Located} (loose : level ≠ .atom)
      (inner : Reads P (.formula level.next f) ts) : Reads P (.formula level f) ts
  | noItems (close : Symbol) (closes : Nat) :
      Reads P (.items close []) [⟨.symbol close, closes⟩]
  | lastItem {close : Symbol} (closes : Nat) {item : Formula} {ts : List Located}
      (first : Reads P (.formula .disjunction item) ts) :
      Reads P (.items close [item]) (ts ++ [⟨.symbol close, closes⟩])
  | item {close : Symbol} (comma : Nat) {item : Formula} {items : List Formula}
      {ts us : List Located} (first : Reads P (.formula .disjunction item) ts)
      (others : Reads P (.items close items) us) :
      Reads P (.items close (item :: items)) (ts ++ ⟨.symbol .comma, comma⟩ :: us)
  | noPairs (closes : Nat) : Reads P (.pairs []) [⟨.symbol .closeBrace, closes⟩]
  | lastPair (colon closes : Nat) {key value : Formula} {ts us : List Located}
      (first : Reads P (.formula .disjunction key) ts)
      (second : Reads P (.formula .disjunction value) us) :
      Reads P (.pairs [(key, value)])
        (ts ++ ⟨.symbol .colon, colon⟩ :: (us ++ [⟨.symbol .closeBrace, closes⟩]))
  | pair (colon comma : Nat) {key value : Formula} {pairs : List (Formula × Formula)}
      {ts us vs : List Located} (first : Reads P (.formula .disjunction key) ts)
      (second : Reads P (.formula .disjunction value) us) (others : Reads P (.pairs pairs) vs) :
      Reads P (.pairs ((key, value) :: pairs))
        (ts ++ ⟨.symbol .colon, colon⟩ :: (us ++ ⟨.symbol .comma, comma⟩ :: vs))

/-- No part of a formula is without tokens. -/
theorem Reads.ne_nil {P : String → Prop} {part : Part} {ts : List Located} (reads : Reads P part ts) :
    ts ≠ [] := by
  induction reads with
  | tighter _ _ ih => exact ih
  | _ => simp

/-! ## Single tokens -/

section Tokens

variable {ts rest : List Located}

theorem eq_cons_of_first (goes : (first ts).token ≠ .finish) : ts = first ts :: ts.drop 1 := by
  cases ts with
  | nil => exact absurd rfl goes
  | cons t rest => rfl

theorem eq_cons_of_operator {level : Level} {op : BinaryOp}
    (found : level.operator? (first ts).token = some op) : ts = first ts :: ts.drop 1 := by
  refine eq_cons_of_first fun finish => ?_
  rw [finish] at found
  cases level <;> cases found

theorem eq_cons_of_prefixOperator {level : Level} {op : UnaryOp}
    (found : level.prefixOperator? (first ts).token = some op) : ts = first ts :: ts.drop 1 := by
  refine eq_cons_of_first fun finish => ?_
  rw [finish] at found
  cases level <;> cases found

theorem startsWith_self (s : Symbol) (offset : Nat) :
    startsWith s (⟨.symbol s, offset⟩ :: ts) = true := beq_self_eq_true s

theorem eq_cons_of_startsWith {s : Symbol} (starts : startsWith s ts = true) :
    ∃ offset, ts = ⟨.symbol s, offset⟩ :: ts.drop 1 := by
  unfold startsWith at starts
  split at starts
  · rename_i t offset rest
    exact ⟨offset, by rw [eq_of_beq starts]; rfl⟩
  · cases starts

theorem eq_cons_of_expect {s : Symbol} (expected : expect s ts = .ok rest) :
    ∃ offset, ts = ⟨.symbol s, offset⟩ :: rest := by
  unfold expect at expected
  split at expected
  · rename_i t offset behind
    split at expected
    · rename_i same
      exact ⟨offset, by rw [same, Except.ok.inj expected]⟩
    · cases expected
  · cases expected

end Tokens

/-! ## What the parser takes -/

/-- The tokens from `ts` up to `rest` are a part of a formula. -/
def Takes (part : Part) (ts rest : List Located) : Prop :=
  ∃ run, ts = run ++ rest ∧ Reads (fun _ => True) part run

theorem Takes.tighter {level : Level} {f : Formula} {ts rest : List Located}
    (takes : Takes (.formula level.next f) ts rest) (loose : level ≠ .atom) :
    Takes (.formula level f) ts rest :=
  let ⟨run, shape, reads⟩ := takes
  ⟨run, shape, .tighter loose reads⟩

/-- Every part of the parser takes what the grammar calls that part.  Where a left
operand is already read, its tokens are in front. -/
structure Sound (fuel : Nat) : Prop where
  level : ∀ {level ts f rest}, parseLevel fuel level ts = .ok (f, rest) →
    Takes (.formula level f) ts rest
  more : ∀ {level : Level} {left ts f rest ls}, level.leftOperand = level →
    level.rightOperand = level.next → Reads (fun _ => True) (.formula level left) ls →
      parseMore fuel level left ts = .ok (f, rest) → Takes (.formula level f) (ls ++ ts) rest
  prefixed : ∀ {level : Level} {ts f rest}, level ≠ .atom →
    parsePrefixed fuel level ts = .ok (f, rest) → Takes (.formula level f) ts rest
  once : ∀ {level : Level} {ts f rest}, level ≠ .atom → level.leftOperand = level.next →
    parseOnce fuel level level.rightOperand ts = .ok (f, rest) → Takes (.formula level f) ts rest
  subscripts : ∀ {target ts f rest ls}, Reads (fun _ => True) (.formula .subscript target) ls →
    parseSubscripts fuel target ts = .ok (f, rest) → Takes (.formula .subscript f) (ls ++ ts) rest
  atom : ∀ {ts f rest}, parseAtom fuel ts = .ok (f, rest) → Takes (.formula .atom f) ts rest
  items : ∀ {close ts items rest}, parseItems fuel close ts = .ok (items, rest) →
    Takes (.items close items) ts rest
  pairs : ∀ {ts pairs rest}, parsePairs fuel ts = .ok (pairs, rest) → Takes (.pairs pairs) ts rest

section Sound

variable {fuel : Nat} (sound : Sound fuel)
include sound

theorem Sound.step_left {level : Level} {ts rest : List Located} {f : Formula}
    (loose : level ≠ .atom) (left : level.leftOperand = level)
    (right : level.rightOperand = level.next)
    (ran : (do
      let (left, ts) ← parseLevel fuel level.next ts
      parseMore fuel level left ts) = .ok (f, rest)) : Takes (.formula level f) ts rest := by
  obtain ⟨⟨operand, middle⟩, first, onward⟩ := bind_eq_ok.1 ran
  obtain ⟨run, rfl, reads⟩ := sound.level first
  exact sound.more left right (.tighter loose reads) onward

theorem Sound.step_level {level : Level} {ts rest : List Located} {f : Formula}
    (ran : parseLevel (fuel + 1) level ts = .ok (f, rest)) :
    Takes (.formula level f) ts rest := by
  cases level with
  | disjunction | conjunction | sum | product =>
      exact sound.step_left (fun same => by cases same) rfl rfl ran
  | negation | sign => exact sound.prefixed (fun same => by cases same) ran
  | comparison | power => exact sound.once (fun same => by cases same) rfl ran
  | atom => exact sound.atom ran
  | subscript =>
      obtain ⟨⟨target, middle⟩, first, onward⟩ := bind_eq_ok.1 ran
      obtain ⟨run, rfl, reads⟩ := sound.level first
      exact sound.subscripts (.tighter (fun same => by cases same) reads) onward

theorem Sound.step_more {level : Level} {left : Formula} {ls ts rest : List Located} {f : Formula}
    (leftLevel : level.leftOperand = level) (rightLevel : level.rightOperand = level.next)
    (reads : Reads (fun _ => True) (.formula level left) ls)
    (ran : parseMore (fuel + 1) level left ts = .ok (f, rest)) :
    Takes (.formula level f) (ls ++ ts) rest := by
  rw [parseMore] at ran
  split at ran
  · obtain ⟨rfl, rfl⟩ := Prod.mk.inj (Except.ok.inj ran)
    exact ⟨ls, rfl, reads⟩
  · rename_i op found
    obtain ⟨⟨right, middle⟩, second, onward⟩ := bind_eq_ok.1 ran
    obtain ⟨run, shape, readsRight⟩ := sound.level second
    have whole : Reads (fun _ => True) (.formula level (.binary (first ts).offset op left right))
        (ls ++ first ts :: run) :=
      .binary (first ts).offset found (leftLevel.symm ▸ reads) (rightLevel.symm ▸ readsRight)
    have takes := sound.more leftLevel rightLevel whole onward
    rwa [List.append_assoc, List.cons_append, ← shape, ← eq_cons_of_operator found] at takes

theorem Sound.step_prefixed {level : Level} {ts rest : List Located} {f : Formula}
    (loose : level ≠ .atom) (ran : parsePrefixed (fuel + 1) level ts = .ok (f, rest)) :
    Takes (.formula level f) ts rest := by
  rw [parsePrefixed] at ran
  split at ran
  · exact (sound.level ran).tighter loose
  · rename_i op found
    obtain ⟨⟨operand, behind⟩, second, result⟩ := bind_eq_ok.1 ran
    obtain ⟨rfl, rfl⟩ := Prod.mk.inj (Except.ok.inj result)
    obtain ⟨run, shape, reads⟩ := sound.prefixed loose second
    refine ⟨first ts :: run, ?_, .unary (first ts).offset found reads⟩
    rw [List.cons_append, ← shape, ← eq_cons_of_prefixOperator found]

theorem Sound.step_once {level : Level} {ts rest : List Located} {f : Formula}
    (loose : level ≠ .atom) (left : level.leftOperand = level.next)
    (ran : parseOnce (fuel + 1) level level.rightOperand ts = .ok (f, rest)) :
    Takes (.formula level f) ts rest := by
  rw [parseOnce] at ran
  obtain ⟨⟨operand, middle⟩, leftRan, onward⟩ := bind_eq_ok.1 ran
  have takes := sound.level leftRan
  dsimp only at onward
  split at onward
  · obtain ⟨rfl, rfl⟩ := Prod.mk.inj (Except.ok.inj onward)
    exact takes.tighter loose
  · rename_i op found
    obtain ⟨⟨right, behind⟩, second, result⟩ := bind_eq_ok.1 onward
    obtain ⟨rfl, rfl⟩ := Prod.mk.inj (Except.ok.inj result)
    obtain ⟨run, rfl, reads⟩ := takes
    obtain ⟨run', shape, readsRight⟩ := sound.level second
    refine ⟨run ++ first middle :: run', ?_,
      .binary (first middle).offset found (left.symm ▸ reads) readsRight⟩
    rw [List.append_assoc, List.cons_append, ← shape, ← eq_cons_of_operator found]

theorem Sound.step_subscripts {target : Formula} {ls ts rest : List Located} {f : Formula}
    (reads : Reads (fun _ => True) (.formula .subscript target) ls)
    (ran : parseSubscripts (fuel + 1) target ts = .ok (f, rest)) :
    Takes (.formula .subscript f) (ls ++ ts) rest := by
  rw [parseSubscripts.eq_def] at ran
  dsimp only at ran
  split at ran
  · rename_i offset behind
    obtain ⟨⟨key, middle⟩, inner, onward⟩ := bind_eq_ok.1 ran
    obtain ⟨after, expected, onward⟩ := bind_eq_ok.1 onward
    obtain ⟨closes, rfl⟩ := eq_cons_of_expect expected
    obtain ⟨run, rfl, readsKey⟩ := sound.level inner
    have takes := sound.subscripts (.index offset closes reads readsKey) onward
    simpa only [List.append_assoc, List.cons_append, List.nil_append] using takes
  · obtain ⟨rfl, rfl⟩ := Prod.mk.inj (Except.ok.inj ran)
    exact ⟨ls, rfl, reads⟩

omit sound in
/-- A number takes the name behind it as its unit. -/
theorem takes_withUnit {token : Token} {magnitude : Float} {bare : Formula} {offset : Nat}
    {ts rest : List Located} {f : Formula} (is : Numeric offset token magnitude bare)
    (ran : withUnit magnitude bare offset ts = .ok (f, rest)) :
    Takes (.formula .atom f) (⟨token, offset⟩ :: ts) rest := by
  have alone : Takes (.formula .atom bare) (⟨token, offset⟩ :: ts) ts := ⟨_, rfl, .number is⟩
  unfold withUnit at ran
  split at ran
  · rename_i symbol place behind
    split at ran
    · obtain ⟨rfl, rfl⟩ := Prod.mk.inj (Except.ok.inj ran)
      exact alone
    · rename_i other
      split at ran
      · rename_i unit known
        obtain ⟨rfl, rfl⟩ := Prod.mk.inj (Except.ok.inj ran)
        exact ⟨_, rfl, .quantity is (eq_false_of_ne_true other) known⟩
      · cases ran
  · obtain ⟨rfl, rfl⟩ := Prod.mk.inj (Except.ok.inj ran)
    exact alone

theorem Sound.step_atom {ts rest : List Located} {f : Formula}
    (ran : parseAtom (fuel + 1) ts = .ok (f, rest)) : Takes (.formula .atom f) ts rest := by
  rw [parseAtom.eq_def] at ran
  dsimp only at ran
  split at ran
  · exact takes_withUnit (.int _) ran
  · exact takes_withUnit (.float _) ran
  · obtain ⟨rfl, rfl⟩ := Prod.mk.inj (Except.ok.inj ran)
    exact ⟨_, rfl, .text _ _⟩
  · split at ran
    · rename_i starts
      obtain ⟨⟨args, after⟩, inner, result⟩ := bind_eq_ok.1 ran
      obtain ⟨rfl, rfl⟩ := Prod.mk.inj (Except.ok.inj result)
      obtain ⟨opens, shape⟩ := eq_cons_of_startsWith starts
      obtain ⟨run, shape', reads⟩ := sound.items inner
      rw [shape, shape']
      exact ⟨_, rfl, .call _ opens trivial reads⟩
    · obtain ⟨rfl, rfl⟩ := Prod.mk.inj (Except.ok.inj ran)
      exact ⟨_, rfl, .name _ trivial⟩
  · rename_i opens behind
    obtain ⟨⟨inner, middle⟩, parsed, onward⟩ := bind_eq_ok.1 ran
    obtain ⟨after, expected, result⟩ := bind_eq_ok.1 onward
    obtain ⟨rfl, rfl⟩ := Prod.mk.inj (Except.ok.inj result)
    obtain ⟨closes, rfl⟩ := eq_cons_of_expect expected
    obtain ⟨run, rfl, reads⟩ := sound.level parsed
    refine ⟨_, ?_, .group opens closes reads⟩
    rw [List.cons_append, List.append_assoc]
    rfl
  · obtain ⟨⟨items, after⟩, inner, result⟩ := bind_eq_ok.1 ran
    obtain ⟨rfl, rfl⟩ := Prod.mk.inj (Except.ok.inj result)
    obtain ⟨run, rfl, reads⟩ := sound.items inner
    exact ⟨_, rfl, .list _ reads⟩
  · obtain ⟨⟨pairs, after⟩, inner, result⟩ := bind_eq_ok.1 ran
    obtain ⟨rfl, rfl⟩ := Prod.mk.inj (Except.ok.inj result)
    obtain ⟨run, rfl, reads⟩ := sound.pairs inner
    exact ⟨_, rfl, .dict _ reads⟩
  · cases ran

omit sound in
/-- Behind an item stands the end of the sequence, or a comma. -/
theorem eq_of_afterItem {close : Symbol} {ts rest : List Located}
    (expected : afterItem close ts = .ok rest) :
    (rest = ts ∧ ∃ closes, ts = ⟨.symbol close, closes⟩ :: ts.drop 1) ∨
      ∃ comma, ts = ⟨.symbol .comma, comma⟩ :: rest := by
  unfold afterItem at expected
  split at expected
  · exact .inl ⟨(Except.ok.inj expected).symm, eq_cons_of_startsWith ‹_›⟩
  · exact .inr (eq_cons_of_expect expected)

omit sound in
/-- A sequence that is at its end has no further items. -/
theorem eq_nil_of_parseItems {close : Symbol} {closes : Nat} {ts rest : List Located}
    {items : List Formula}
    (ran : parseItems fuel close (⟨.symbol close, closes⟩ :: ts) = .ok (items, rest)) :
    items = [] ∧ rest = ts := by
  cases fuel with
  | zero => cases ran
  | succ fuel =>
      rw [parseItems, if_pos (startsWith_self close closes)] at ran
      obtain ⟨rfl, rfl⟩ := Prod.mk.inj (Except.ok.inj ran)
      exact ⟨rfl, rfl⟩

omit sound in
theorem eq_nil_of_parsePairs {closes : Nat} {ts rest : List Located}
    {pairs : List (Formula × Formula)}
    (ran : parsePairs fuel (⟨.symbol .closeBrace, closes⟩ :: ts) = .ok (pairs, rest)) :
    pairs = [] ∧ rest = ts := by
  cases fuel with
  | zero => cases ran
  | succ fuel =>
      rw [parsePairs, if_pos (startsWith_self .closeBrace closes)] at ran
      obtain ⟨rfl, rfl⟩ := Prod.mk.inj (Except.ok.inj ran)
      exact ⟨rfl, rfl⟩

theorem Sound.step_items {close : Symbol} {ts rest : List Located} {items : List Formula}
    (ran : parseItems (fuel + 1) close ts = .ok (items, rest)) :
    Takes (.items close items) ts rest := by
  rw [parseItems] at ran
  split at ran
  · rename_i starts
    obtain ⟨rfl, rfl⟩ := Prod.mk.inj (Except.ok.inj ran)
    obtain ⟨closes, shape⟩ := eq_cons_of_startsWith starts
    exact ⟨_, shape, .noItems close closes⟩
  · obtain ⟨⟨item, middle⟩, inner, onward⟩ := bind_eq_ok.1 ran
    obtain ⟨after, expected, onward⟩ := bind_eq_ok.1 onward
    obtain ⟨⟨others, behind⟩, further, result⟩ := bind_eq_ok.1 onward
    obtain ⟨rfl, rfl⟩ := Prod.mk.inj (Except.ok.inj result)
    obtain ⟨run, rfl, reads⟩ := sound.level inner
    rcases eq_of_afterItem expected with ⟨rfl, closes, shape⟩ | ⟨comma, rfl⟩
    · rw [shape] at further ⊢
      obtain ⟨rfl, rfl⟩ := eq_nil_of_parseItems further
      exact ⟨_, (List.append_assoc run [_] _).symm, .lastItem closes reads⟩
    · obtain ⟨run', rfl, readsOthers⟩ := sound.items further
      exact ⟨_, (List.append_assoc run (_ :: run') behind).symm, .item comma reads readsOthers⟩

theorem Sound.step_pairs {ts rest : List Located} {pairs : List (Formula × Formula)}
    (ran : parsePairs (fuel + 1) ts = .ok (pairs, rest)) : Takes (.pairs pairs) ts rest := by
  rw [parsePairs] at ran
  split at ran
  · rename_i starts
    obtain ⟨rfl, rfl⟩ := Prod.mk.inj (Except.ok.inj ran)
    obtain ⟨closes, shape⟩ := eq_cons_of_startsWith starts
    exact ⟨_, shape, .noPairs closes⟩
  · obtain ⟨⟨key, middle⟩, inner, onward⟩ := bind_eq_ok.1 ran
    obtain ⟨after, expected, onward⟩ := bind_eq_ok.1 onward
    obtain ⟨⟨value, behind⟩, second, onward⟩ := bind_eq_ok.1 onward
    obtain ⟨next, separates, onward⟩ := bind_eq_ok.1 onward
    obtain ⟨⟨others, last⟩, further, result⟩ := bind_eq_ok.1 onward
    obtain ⟨rfl, rfl⟩ := Prod.mk.inj (Except.ok.inj result)
    obtain ⟨colon, rfl⟩ := eq_cons_of_expect expected
    obtain ⟨run, rfl, readsKey⟩ := sound.level inner
    obtain ⟨run', rfl, readsValue⟩ := sound.level second
    rcases eq_of_afterItem separates with ⟨rfl, closes, shape⟩ | ⟨comma, rfl⟩
    · rw [shape] at further ⊢
      obtain ⟨rfl, rfl⟩ := eq_nil_of_parsePairs further
      refine ⟨_, ?_, .lastPair colon closes readsKey readsValue⟩
      simp only [List.append_assoc, List.cons_append, List.nil_append]
    · obtain ⟨run'', rfl, readsOthers⟩ := sound.pairs further
      refine ⟨_, ?_, .pair colon comma readsKey readsValue readsOthers⟩
      simp only [List.append_assoc, List.cons_append]

end Sound

theorem sound (fuel : Nat) : Sound fuel := by
  induction fuel with
  | zero => constructor <;> intros <;> rename_i ran <;> cases ran
  | succ fuel sound =>
      exact ⟨sound.step_level, sound.step_more, sound.step_prefixed, sound.step_once,
        sound.step_subscripts, sound.step_atom, sound.step_items, sound.step_pairs⟩

/-- **A text that is parsed is a formula and nothing else**: its tokens up to the end mark
are the formula in the grammar. -/
theorem reads_of_parse {text : String} {f : Formula} (parsed : parse text = .ok f) :
    ∃ run rest, tokenize text = .ok (run ++ rest) ∧ (first rest).token = .finish ∧
      Reads (fun _ => True) (.formula .disjunction f) run := by
  obtain ⟨ts, tokens, onward⟩ := bind_eq_ok.1 parsed
  obtain ⟨⟨g, rest⟩, read, result⟩ := bind_eq_ok.1 onward
  dsimp only at result
  split at result
  · rename_i last
    obtain rfl := Except.ok.inj result
    obtain ⟨run, rfl, reads⟩ := (sound _).level read
    exact ⟨run, rest, tokens, last, reads⟩
  · cases result

end PulseSequencer.Formula
