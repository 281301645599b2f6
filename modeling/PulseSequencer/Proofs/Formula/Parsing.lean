import PulseSequencer.Proofs.Formula.Grammar

/-
# PulseSequencer.Proofs.Formula.Parsing -- the tokens of a formula

In the tokens of a formula every bracket is closed behind its opening, separators stand
inside brackets, and neighbours fit each other: `Reads.flows`.  The names and units of
the formula are names among its tokens: `Reads.madeOf`.
-/

namespace PulseSequencer

set_option autoImplicit false

mutual

/-- The names of a formula, and the texts of its units, satisfy a predicate. -/
def Formula.MadeOf (P : String → Prop) : Formula → Prop
  | .int _ _ | .float _ _ | .text _ _ => True
  | .quantity _ _ unit => ∃ symbol, P symbol ∧ PhysicalUnit.parse symbol = .ok unit
  | .name _ s => P s
  | .list _ items => Formula.MadeOfItems P items
  | .dict _ items => Formula.MadeOfPairs P items
  | .unary _ _ operand => operand.MadeOf P
  | .binary _ _ left right => left.MadeOf P ∧ right.MadeOf P
  | .call _ _ args => Formula.MadeOfItems P args
  | .index _ target key => target.MadeOf P ∧ key.MadeOf P

def Formula.MadeOfItems (P : String → Prop) : List Formula → Prop
  | [] => True
  | item :: rest => item.MadeOf P ∧ Formula.MadeOfItems P rest

def Formula.MadeOfPairs (P : String → Prop) : List (Formula × Formula) → Prop
  | [] => True
  | (key, item) :: rest => key.MadeOf P ∧ item.MadeOf P ∧ Formula.MadeOfPairs P rest

end

namespace Formula

/-! ## Names -/

def Part.MadeOf (P : String → Prop) : Part → Prop
  | .formula _ f => f.MadeOf P
  | .items _ fs => MadeOfItems P fs
  | .pairs entries => MadeOfPairs P entries

/-- The names among tokens satisfy a predicate. -/
def Names (P : String → Prop) (ts : List Located) : Prop :=
  ∀ name offset, ⟨.name name, offset⟩ ∈ ts → P name

section Names

variable {P : String → Prop} {t : Located} {ts us : List Located}

theorem names_append : Names P (ts ++ us) ↔ Names P ts ∧ Names P us := by
  simp only [Names, List.mem_append, or_imp, forall_and]

theorem names_cons : Names P (t :: ts) ↔ Names P [t] ∧ Names P ts :=
  show Names P ([t] ++ ts) ↔ _ from names_append

theorem names_name {s : String} {offset : Nat} (names : Names P [⟨.name s, offset⟩]) : P s :=
  names s offset (List.mem_singleton_self _)

/-- **The names of a formula are names among its tokens.** -/
theorem Reads.madeOf {Q : String → Prop} {part : Part} (reads : Reads Q part ts)
    (names : Names P ts) : part.MadeOf P := by
  induction reads with
  | number is => cases is <;> trivial
  | quantity is word known => exact ⟨_, names_name (names_cons.1 names).2, known⟩
  | text | noItems | noPairs => trivial
  | name => exact names_name names
  | call _ _ _ _ ih => exact ih (names_cons.1 (names_cons.1 names).2).2
  | group _ _ _ ih => exact ih (names_append.1 (names_cons.1 names).2).1
  | list _ _ ih | dict _ _ ih | unary _ _ _ ih => exact ih (names_cons.1 names).2
  | index _ _ _ _ ihTarget ihKey =>
      obtain ⟨target, names⟩ := names_append.1 names
      exact ⟨ihTarget target, ihKey (names_append.1 (names_cons.1 names).2).1⟩
  | binary _ _ _ _ ihLeft ihRight =>
      obtain ⟨left, names⟩ := names_append.1 names
      exact ⟨ihLeft left, ihRight (names_cons.1 names).2⟩
  | tighter _ _ ih => exact ih names
  | lastItem _ _ ih => exact ⟨ih (names_append.1 names).1, trivial⟩
  | item _ _ _ ihItem ih =>
      obtain ⟨item, names⟩ := names_append.1 names
      exact ⟨ihItem item, ih (names_cons.1 names).2⟩
  | lastPair _ _ _ _ ihKey ihValue =>
      obtain ⟨key, names⟩ := names_append.1 names
      exact ⟨ihKey key, ihValue (names_append.1 (names_cons.1 names).2).1, trivial⟩
  | pair _ _ _ _ _ ihKey ihValue ih =>
      obtain ⟨key, names⟩ := names_append.1 names
      obtain ⟨value, names⟩ := names_append.1 (names_cons.1 names).2
      exact ⟨ihKey key, ihValue value, ih (names_cons.1 names).2⟩

end Names

/-! ## Brackets and neighbours -/

/-- By how much a token changes the number of open brackets. -/
def Token.turn : Token → Int
  | .symbol .openParen | .symbol .openBracket | .symbol .openBrace => 1
  | .symbol .closeParen | .symbol .closeBracket | .symbol .closeBrace => -1
  | _ => 0

/-- A comma or a colon. -/
def Token.separates : Token → Bool
  | .symbol .comma | .symbol .colon => true
  | _ => false

def Token.compares (t : Token) : Bool := (Level.comparison.operator? t).isSome

/-- What can stand behind a number: a name only if it is a keyword or a unit. -/
def Token.endsNumber : Token → Prop
  | .int _ | .float _ => False
  | .name s => isKeyword s = true ∨ ∃ unit, PhysicalUnit.parse s = .ok unit
  | _ => True

/-- Which token can stand behind which. -/
def Token.Meets : Token → Token → Prop
  | .int _, u | .float _, u => u.endsNumber
  | .symbol s, u => (Token.symbol s).turn = -1 ∨ u.compares = false
  | _, _ => True

/-- From some token on, with some brackets open, neighbours fit, separators stand inside
brackets, and just the brackets that are open are closed. -/
def Flows (prev : Token) (depth : Int) : List Located → Prop
  | [] => depth = 0
  | t :: rest =>
      prev.Meets t.token ∧ (t.token.separates = true → 0 < depth) ∧ 0 ≤ depth + t.token.turn ∧
        Flows t.token (depth + t.token.turn) rest

section Flows

variable {prev t : Token} {depth : Int} {offset : Nat} {rest : List Located}

/-- A formula can stand behind a token. -/
def Token.Leads (t : Token) : Prop := ∀ u, u.compares = false → t.Meets u

/-- A formula can end with a token: what can stand behind a number can stand behind it. -/
def Token.Ends (t : Token) : Prop := ∀ u : Token, u.endsNumber → t.Meets u

theorem Token.leads_symbol {s : Symbol} : (Token.symbol s).Leads := fun _ => .inr

theorem Token.ends_symbol {s : Symbol} (closes : (Token.symbol s).turn = -1) :
    (Token.symbol s).Ends := fun _ _ => .inl closes

theorem Numeric.ends {magnitude : Float} {bare : Formula} (is : Numeric offset t magnitude bare) :
    t.Ends := by
  cases is <;> exact fun _ ends => ends

/-- Operators are no operands, and those that are words are keywords. -/
theorem joins_of_operator {level : Level} {op : BinaryOp} (found : level.operator? t = some op) :
    t.Leads ∧ t.endsNumber ∧ t.turn = 0 ∧ t.separates = false := by
  unfold Level.operator? at found
  split at found <;> first
    | exact ⟨fun _ => .inr, trivial, rfl, rfl⟩
    | exact ⟨fun _ _ => trivial, .inl rfl, rfl, rfl⟩
    | cases found

theorem leads_of_prefixOperator {level : Level} {op : UnaryOp}
    (found : level.prefixOperator? t = some op) :
    t.Leads ∧ t.compares = false ∧ t.turn = 0 ∧ t.separates = false := by
  unfold Level.prefixOperator? at found
  split at found <;> first
    | exact ⟨fun _ => .inr, rfl, rfl, rfl⟩
    | exact ⟨fun _ _ => trivial, rfl, rfl, rfl⟩
    | cases found

/-- A token that neither opens nor closes a bracket nor separates. -/
theorem flows_plain (meets : prev.Meets t) (plain : t.turn = 0) (inside : t.separates = false)
    (above : 0 ≤ depth) (behind : Flows t depth rest) : Flows prev depth (⟨t, offset⟩ :: rest) := by
  refine ⟨meets, fun separates => ?_, ?_, ?_⟩
  · cases inside.symm.trans separates
  all_goals rwa [plain, Int.add_zero]

theorem flows_separator (meets : prev.Meets t) (plain : t.turn = 0) (above : 0 ≤ depth)
    (behind : Flows t (depth + 1) rest) : Flows prev (depth + 1) (⟨t, offset⟩ :: rest) := by
  refine ⟨meets, fun _ => Int.lt_add_one_of_le above, ?_, ?_⟩
  · rw [plain, Int.add_zero]
    omega
  · rwa [plain, Int.add_zero]

theorem flows_open (meets : prev.Meets t) (opens : t.turn = 1) (inside : t.separates = false)
    (above : 0 ≤ depth) (behind : Flows t (depth + 1) rest) :
    Flows prev depth (⟨t, offset⟩ :: rest) := by
  refine ⟨meets, fun separates => ?_, ?_, ?_⟩
  · cases inside.symm.trans separates
  · rw [opens]
    omega
  · rwa [opens]

theorem flows_close {s : Symbol} (meets : prev.Meets (.symbol s))
    (closes : (Token.symbol s).turn = -1) (above : 0 ≤ depth)
    (behind : ∀ t : Token, t.Ends → Flows t depth rest) :
    Flows prev (depth + 1) (⟨.symbol s, offset⟩ :: rest) := by
  refine ⟨meets, fun _ => Int.lt_add_one_of_le above, ?_, ?_⟩
  · rwa [closes, show depth + 1 + -1 = depth by omega]
  · rw [closes, show depth + 1 + -1 = depth by omega]
    exact behind _ (Token.ends_symbol closes)

end Flows

/-- How the tokens of a part lead on to what stands behind them: items and pairs close the
bracket in which they stand. -/
def Part.Flows : Part → List Located → Prop
  | .formula _ _, ts => ∀ prev depth rest, prev.Leads → 0 ≤ depth →
      (∀ t : Token, t.Ends → Formula.Flows t depth rest) → Formula.Flows prev depth (ts ++ rest)
  | .items close _, ts => ∀ prev depth rest, (Token.symbol close).turn = -1 → prev.Leads →
      0 ≤ depth → (∀ t : Token, t.Ends → Formula.Flows t depth rest) →
        Formula.Flows prev (depth + 1) (ts ++ rest)
  | .pairs _, ts => ∀ prev depth rest, prev.Leads → 0 ≤ depth →
      (∀ t : Token, t.Ends → Formula.Flows t depth rest) →
        Formula.Flows prev (depth + 1) (ts ++ rest)

theorem compares_of_turn {s : Symbol} (closes : (Token.symbol s).turn = -1) :
    (Token.symbol s).compares = false := by
  cases s <;> first | rfl | cases closes

/-- What a part leads on to is shown part by part: the tokens behind an operand are those
that the rule has there. -/
theorem Reads.flows {P : String → Prop} {part : Part} {ts : List Located}
    (reads : Reads P part ts) : part.Flows ts := by
  induction reads with
  | number is =>
      intro prev depth rest leads above behind
      have ends := behind _ is.ends
      cases is <;> exact flows_plain (leads _ rfl) rfl rfl above ends
  | @quantity offset place _ _ _ _ _ is word known =>
      intro prev depth rest leads above behind
      have meets := is.ends (.name _) (Or.inr ⟨_, known⟩)
      have ends : Flows _ depth (⟨.name _, place⟩ :: rest) :=
        flows_plain meets rfl rfl above (behind (.name _) fun _ _ => trivial)
      cases is <;> exact flows_plain (leads _ rfl) rfl rfl above ends
  | text offset s =>
      intro prev depth rest leads above behind
      exact flows_plain (leads _ rfl) rfl rfl above (behind _ fun _ _ => trivial)
  | name offset word =>
      intro prev depth rest leads above behind
      exact flows_plain (leads _ rfl) rfl rfl above (behind _ fun _ _ => trivial)
  | call offset opens word _ ih =>
      intro prev depth rest leads above behind
      refine flows_plain (leads _ rfl) rfl rfl above ?_
      refine flows_open trivial rfl rfl above ?_
      exact ih _ depth rest rfl Token.leads_symbol above behind
  | group opens closes _ ih =>
      intro prev depth rest leads above behind
      rw [List.cons_append, List.append_assoc]
      refine flows_open (leads _ rfl) rfl rfl above ?_
      refine ih _ (depth + 1) _ Token.leads_symbol (by omega) fun t ends => ?_
      exact flows_close (ends _ trivial) rfl above behind
  | list offset _ ih =>
      intro prev depth rest leads above behind
      refine flows_open (leads _ rfl) rfl rfl above ?_
      exact ih _ depth rest rfl Token.leads_symbol above behind
  | dict offset _ ih =>
      intro prev depth rest leads above behind
      refine flows_open (leads _ rfl) rfl rfl above ?_
      exact ih _ depth rest Token.leads_symbol above behind
  | index offset closes _ _ ihTarget ihKey =>
      intro prev depth rest leads above behind
      rw [List.append_assoc, List.cons_append, List.append_assoc]
      refine ihTarget prev depth _ leads above fun t ends => ?_
      refine flows_open (ends _ trivial) rfl rfl above ?_
      refine ihKey _ (depth + 1) _ Token.leads_symbol (by omega) fun t ends => ?_
      exact flows_close (ends _ trivial) rfl above behind
  | unary offset found _ ih =>
      intro prev depth rest leads above behind
      obtain ⟨onward, plain, level, inside⟩ := leads_of_prefixOperator found
      exact flows_plain (leads _ plain) level inside above (ih _ depth rest onward above behind)
  | binary offset found _ _ ihLeft ihRight =>
      intro prev depth rest leads above behind
      obtain ⟨onward, ending, level, inside⟩ := joins_of_operator found
      rw [List.append_assoc]
      refine ihLeft prev depth _ leads above fun t ends => ?_
      exact flows_plain (ends _ ending) level inside above
        (ihRight _ depth rest onward above behind)
  | tighter loose _ ih => exact ih
  | noItems close closes =>
      intro prev depth rest closing leads above behind
      exact flows_close (leads _ (compares_of_turn closing)) closing above behind
  | lastItem closes _ ih =>
      intro prev depth rest closing leads above behind
      rw [List.append_assoc]
      refine ih prev (depth + 1) _ leads (by omega) fun t ends => ?_
      exact flows_close (ends _ trivial) closing above behind
  | item comma _ _ ihItem ih =>
      intro prev depth rest closing leads above behind
      rw [List.append_assoc]
      refine ihItem prev (depth + 1) _ leads (by omega) fun t ends => ?_
      refine flows_separator (ends _ trivial) rfl above ?_
      exact ih _ depth rest closing Token.leads_symbol above behind
  | noPairs closes =>
      intro prev depth rest leads above behind
      exact flows_close (leads _ rfl) rfl above behind
  | lastPair colon closes _ _ ihKey ihValue =>
      intro prev depth rest leads above behind
      rw [List.append_assoc, List.cons_append, List.append_assoc]
      refine ihKey prev (depth + 1) _ leads (by omega) fun t ends => ?_
      refine flows_separator (ends _ trivial) rfl above ?_
      refine ihValue _ (depth + 1) _ Token.leads_symbol (by omega) fun t ends => ?_
      exact flows_close (ends _ trivial) rfl above behind
  | pair colon comma _ _ _ ihKey ihValue ih =>
      intro prev depth rest leads above behind
      rw [List.append_assoc, List.cons_append, List.append_assoc]
      refine ihKey prev (depth + 1) _ leads (by omega) fun t ends => ?_
      refine flows_separator (ends _ trivial) rfl above ?_
      refine ihValue _ (depth + 1) _ Token.leads_symbol (by omega) fun t ends => ?_
      refine flows_separator (ends _ trivial) rfl above ?_
      exact ih _ depth rest Token.leads_symbol above behind

end Formula

end PulseSequencer
